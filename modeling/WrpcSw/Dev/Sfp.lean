import WrpcSw.Dev.I2c

/-!
# The part number of an SFP (`dev/sfp.c`)

A transceiver has its description in an EEPROM on the second I2C bus.  `sfp_read_part_id` reads
its first byte in one transfer and the next ones in a second, which goes on where the first one
stopped.  The bytes 40 to 55 are the part number, and byte 63 is the checksum of those before it.

* `Serves` — the levels that a transceiver with a description shows.
* `getByte_serves` — a byte that is read is the byte that is shown.
* `sfpReadPartId_eq` — the part number of the description, and whether its checksum is right.
-/

namespace WrpcSw
namespace Dev
namespace Sfp

open I2c

/-- `sfp_present`: the transceiver pulls `GPIO_SFP_DET` low. -/
def sfpPresent (det : Bool) : Bool := !det

/-- The loop of `sfp_read_part_id`: `left` more bytes from the byte `i` on, the sum so far and the
caller's array. -/
def readRest : Nat → Nat → Bus → UInt8 → List UInt8 → Bus × UInt8 × List UInt8
  | 0, _, bus, sum, partId => (bus, sum, partId)
  | left + 1, i, bus, sum, partId =>
      let (bus, data) := mi2cGetByte bus false
      let partId := if i ≥ 40 ∧ i ≤ 55 then partId.set (i - 40) data else partId
      readRest left (i + 1) bus (sum + data) partId

def mi2cInit (bus : Bus) : Bus := (bus.sclOut true).sdaOut true

/-- `sfp_read_part_id`: the return value and the caller's array. -/
def sfpReadPartId (bus : Bus) (partId : List UInt8) : Bus × Int × List UInt8 :=
  let bus := mi2cStart (mi2cInit bus)
  let bus := (mi2cPutByte bus 0xA0).1
  let bus := (mi2cPutByte bus 0x00).1
  let bus := mi2cRepeatStart bus
  let bus := (mi2cPutByte bus 0xA1).1
  let first := mi2cGetByte bus true
  let bus := mi2cStop first.1
  let bus := (mi2cPutByte (mi2cStart bus) 0xA1).1
  let rest := readRest 62 1 bus first.2 partId
  let last := mi2cGetByte rest.1 true
  (mi2cStop last.1, if rest.2.1 = last.2 then 0 else -1, rest.2.2)

theorem length_readRest (left i : Nat) (bus : Bus) (sum : UInt8) (partId : List UInt8) :
    (readRest left i bus sum partId).2.2.length = partId.length := by
  induction left generalizing i bus sum partId with
  | zero => rfl
  | succ left ih =>
      unfold readRest
      dsimp only
      rw [ih]
      split_ifs
      · exact List.length_set ..
      · rfl

theorem length_sfpReadPartId (bus : Bus) (partId : List UInt8) :
    (sfpReadPartId bus partId).2.2.length = partId.length := by
  unfold sfpReadPartId
  dsimp only
  rw [length_readRest]

/-! ## Bytes -/

/-- A bit that is shifted in. -/
def shiftBit (indata : UInt8) (level : Bool) : UInt8 :=
  if level then indata <<< 1 ||| 0x01 else indata <<< 1

set_option maxRecDepth 8000 in
theorem foldl_bits (data : UInt8) : (bits 8 data).foldl shiftBit 0 = data := by
  have hall : ∀ d : Fin 256, (bits 8 (UInt8.ofFin d)).foldl shiftBit 0 = UInt8.ofFin d := by
    decide
  exact hall data.toFin

theorem length_bits (n : Nat) (data : UInt8) : (bits n data).length = n := by
  induction n generalizing data with
  | zero => rfl
  | succ n ih => rw [bits, List.length_cons, ih]

/-- The device shows a byte from a position on. -/
def Shows (sda : Nat → Bool) (pos : Nat) (data : UInt8) : Prop :=
  ∀ k (h : k < (bits 8 data).length), sda (pos + k) = (bits 8 data)[k]

theorem shiftIn_eq (levels : List Bool) (bus : Bus) (indata : UInt8)
    (h : ∀ k (hk : k < levels.length), bus.sda (bus.seen + k) = levels[k]) :
    (shiftIn levels.length bus indata).2 = levels.foldl shiftBit indata := by
  induction levels generalizing bus indata with
  | nil => rfl
  | cons level levels ih =>
      have hfirst : bus.sda bus.seen = level := h 0 (Nat.succ_pos _)
      rw [List.length_cons, shiftIn, List.foldl_cons]
      have hrest := ih ((bus.sclOut true).sdaIn.1.sclOut false) (shiftBit indata level)
        fun k hk => by
          have hnext := h (k + 1) (Nat.succ_lt_succ hk)
          rw [← Nat.add_assoc, Nat.add_right_comm] at hnext
          exact hnext
      rw [← hrest, ← hfirst]
      rfl

/-- A byte that is read is the byte that the device shows. -/
theorem getByte_shows {bus : Bus} {data : UInt8} (h : Shows bus.sda bus.seen data) (last : Bool) :
    (mi2cGetByte bus last).2 = data := by
  have hin := shiftIn_eq (bits 8 data) ((bus.sdaOut true).sclOut false) 0 h
  rw [length_bits, foldl_bits] at hin
  exact hin

/-! ## The description of a transceiver -/

/-- Where the master looks for the byte `n`, after so many looks: behind the acknowledgements of
three bytes, and of one more for those of the second transfer. -/
def place (n : Nat) : Nat := if n = 0 then 3 else 4 + 8 * n

/-- The device shows the bytes of its description. -/
def Serves (bus : Bus) (page : Nat → UInt8) : Prop :=
  ∀ n < 64, Shows bus.sda (bus.seen + place n) (page n)

/-- The part number in the description. -/
def partNumber (page : Nat → UInt8) : List UInt8 := (List.range 16).map fun k => page (40 + k)

/-- The checksum of the description. -/
def pageSum (page : Nat → UInt8) (n : Nat) : UInt8 := ((List.range n).map page).foldl (· + ·) 0

theorem pageSum_succ (page : Nat → UInt8) (n : Nat) :
    pageSum page (n + 1) = pageSum page n + page n := by
  unfold pageSum
  rw [List.range_succ, List.map_append, List.map_singleton, List.foldl_append]
  rfl

/-- The entries of the array after the bytes `i`, `i + 1`, .. of the description, `left` of them. -/
structure Filled (page : Nat → UInt8) (i left : Nat) (partId partId' : List UInt8) : Prop where
  length : partId'.length = partId.length
  entry : ∀ k, partId'[k]? =
    if k < 16 ∧ i ≤ 40 + k ∧ 40 + k < i + left then some (page (40 + k)) else partId[k]?

/-- One more byte. -/
theorem Filled.cons {page : Nat → UInt8} {i left : Nat} {partId partId' : List UInt8}
    (hlen : 16 ≤ partId.length)
    (h : Filled page (i + 1) left
      (if i ≥ 40 ∧ i ≤ 55 then partId.set (i - 40) (page i) else partId) partId') :
    Filled page i (left + 1) partId partId' := by
  constructor
  · rw [h.length]
    split_ifs
    · exact List.length_set ..
    · rfl
  · intro k
    rw [h.entry k]
    by_cases hlater : k < 16 ∧ i + 1 ≤ 40 + k ∧ 40 + k < i + 1 + left
    · rw [if_pos hlater, if_pos ⟨hlater.1, by omega, by omega⟩]
    · rw [if_neg hlater]
      by_cases hhere : k < 16 ∧ 40 + k = i
      · obtain ⟨hk, rfl⟩ := hhere
        rw [if_pos (by omega), if_pos (by omega), Nat.add_sub_cancel_left,
          List.getElem?_set_self (by omega)]
      · rw [if_neg (by omega : ¬ (k < 16 ∧ i ≤ 40 + k ∧ 40 + k < i + (left + 1)))]
        split_ifs with hpart
        · rw [List.getElem?_set_ne (by omega)]
        · rfl

/-- The loop reads the bytes that the device shows. -/
theorem readRest_spec {page : Nat → UInt8} (left : Nat) {i : Nat} {bus : Bus} {sum : UInt8}
    {partId : List UInt8}
    (hshows : ∀ n < left, Shows bus.sda (bus.seen + 8 * n) (page (i + n)))
    (hsum : sum = pageSum page i) (hlen : 16 ≤ partId.length) :
    ∃ bus' partId', readRest left i bus sum partId = (bus', pageSum page (i + left), partId') ∧
      Follows bus bus' (8 * left) [] ∧ Filled page i left partId partId' := by
  induction left generalizing i bus sum partId with
  | zero =>
      refine ⟨bus, partId, by rw [readRest, hsum]; rfl, Follows.refl bus, rfl, fun k => ?_⟩
      rw [if_neg (by omega)]
  | succ left ih =>
      have hdata : (mi2cGetByte bus false).2 = page i := getByte_shows (hshows 0 (by omega)) false
      have hbyte := follows_getByte bus false
      have hnext : ∀ n < left, Shows (mi2cGetByte bus false).1.sda
          ((mi2cGetByte bus false).1.seen + 8 * n) (page (i + 1 + n)) := by
        intro n hn
        have hplace : bus.seen + 8 * (n + 1) = bus.seen + 8 + 8 * n := by omega
        have hindex : i + (n + 1) = i + 1 + n := by omega
        rw [hbyte.sda, hbyte.seen, ← hplace, ← hindex]
        exact hshows (n + 1) (Nat.succ_lt_succ hn)
      have hsum' : sum + page i = pageSum page (i + 1) := by rw [pageSum_succ, hsum]
      have hmore : 16 ≤
          (if i ≥ 40 ∧ i ≤ 55 then partId.set (i - 40) (page i) else partId).length := by
        split_ifs
        · rw [List.length_set]
          exact hlen
        · exact hlen
      obtain ⟨bus', partId', hread, hfollows, hfilled⟩ :=
        ih hnext hsum' hmore
      refine ⟨bus', partId', ?_, ?_, hfilled.cons hlen⟩
      · unfold readRest
        simp only [hdata]
        rw [hread, Nat.add_assoc, Nat.add_comm 1]
      · have hall := hbyte.trans hfollows
        rw [Nat.add_comm 8, ← Nat.mul_succ] at hall
        exact hall

/-- The first entries of the array are the part number; the others stay. -/
theorem Filled.eq_append {page : Nat → UInt8} {partId partId' : List UInt8}
    (h : Filled page 1 62 partId partId') :
    partId' = partNumber page ++ partId.drop 16 := by
  have hlength : (partNumber page).length = 16 := by
    rw [partNumber, List.length_map, List.length_range]
  apply List.ext_getElem?
  intro k
  rw [h.entry k]
  by_cases hk : k < 16
  · rw [if_pos ⟨hk, by omega, by omega⟩, List.getElem?_append_left (by omega), partNumber,
      List.getElem?_map, List.getElem?_range hk]
    rfl
  · rw [if_neg (by omega), List.getElem?_append_right (by omega), hlength, List.getElem?_drop]
    congr 1
    omega

/-- The part number of the description, and whether its checksum is right. -/
theorem sfpReadPartId_eq {bus : Bus} {page : Nat → UInt8} (h : Serves bus page)
    {partId : List UInt8} (hlen : 16 ≤ partId.length) :
    (sfpReadPartId bus partId).2 =
      (if pageSum page 63 = page 63 then 0 else -1, partNumber page ++ partId.drop 16) := by
  -- the three bytes of the first transfer, and its one byte of data
  have hinit : Follows bus (mi2cStart (mi2cInit bus)) 0 [] :=
    ⟨rfl, rfl, (List.append_nil _).symm⟩
  have hheader := ((((hinit.putByte 0xA0).putByte 0x00).trans (follows_repeatStart _)).putByte 0xA1)
  unfold sfpReadPartId
  dsimp only
  generalize (mi2cPutByte (mi2cRepeatStart (mi2cPutByte (mi2cPutByte (mi2cStart (mi2cInit bus))
    0xA0).1 0x00).1) 0xA1).1 = bus₁ at hheader ⊢
  have hdata : (mi2cGetByte bus₁ true).2 = page 0 := by
    apply getByte_shows
    rw [hheader.sda, hheader.seen]
    exact h 0 (by omega)
  -- the second transfer, up to its data
  have hsecond := (((hheader.trans (follows_getByte bus₁ true)).trans (follows_stop _)).trans
    (follows_start _)).putByte 0xA1
  rw [hdata]
  generalize (mi2cPutByte (mi2cStart (mi2cStop (mi2cGetByte bus₁ true).1)) 0xA1).1 = bus₂
    at hsecond ⊢
  have hshows : ∀ n < 62, Shows bus₂.sda (bus₂.seen + 8 * n) (page (1 + n)) := by
    intro n hn
    have hbyte := h (1 + n) (by omega)
    rw [place, if_neg (by omega)] at hbyte
    rw [hsecond.sda, hsecond.seen]
    convert hbyte using 1
    omega
  have hfirst : page 0 = pageSum page 1 := by
    rw [pageSum_succ]
    exact (UInt8.zero_add _).symm
  obtain ⟨bus₃, partId', hread, hfollows, hfilled⟩ := readRest_spec 62 hshows hfirst hlen
  rw [hread]
  dsimp only
  have hlast : (mi2cGetByte bus₃ true).2 = page 63 := by
    apply getByte_shows
    have hbyte := h 63 (by omega)
    rw [place, if_neg (by omega)] at hbyte
    rw [hfollows.sda, hsecond.sda, hfollows.seen, hsecond.seen]
    exact hbyte
  rw [hlast, hfilled.eq_append]

/-- A bus on which a transceiver shows its description. -/
def servingBus (page : Nat → UInt8) : Bus where
  sda pos :=
    if pos < 11 then (bits 8 (page 0)).getD (pos - 3) false
    else (bits 8 (page ((pos - 4) / 8))).getD ((pos - 4) % 8) false

theorem servingBus_serves (page : Nat → UInt8) : Serves (servingBus page) page := by
  intro n _ k hk
  have hk8 : k < 8 := by rwa [length_bits] at hk
  have hget : ∀ data : UInt8, ∀ j (h : j < (bits 8 data).length),
      (bits 8 data).getD j false = (bits 8 data)[j] := fun data j h => by
    rw [List.getD_eq_getElem?_getD, List.getElem?_eq_getElem h]
    rfl
  simp only [servingBus, Nat.zero_add]
  by_cases hzero : n = 0
  · subst hzero
    rw [place, if_pos rfl, if_pos (by omega), Nat.add_sub_cancel_left, hget]
  · rw [place, if_neg hzero, if_neg (by omega)]
    have hpos : 4 + 8 * n + k - 4 = 8 * n + k := by omega
    have hdiv : (8 * n + k) / 8 = n := by omega
    have hmod : (8 * n + k) % 8 = k := by omega
    rw [hpos, hmod, hget _ _ (by rwa [length_bits])]
    simp only [hdiv]

end Sfp
end Dev
end WrpcSw
