import WrpcSw.Dev.PfilterDefault

/-!
# The endpoint and its address (`dev/endpoint.c`)

The MAC address of the node is in two registers of the endpoint.  The packet filter has its own
copy, in the comparisons of the program that `pfilter_init_default` loads; it is the address of the
node as long as the filter is loaded again whenever the registers change.

* `getMacAddr_setMacAddr` — the address that was set is the one that is read.
* `destination_eq_iff` — the comparisons of the filter are with the bytes that are read.
* `FilterCurrent` — the filter runs the default program for the registers.
-/

namespace WrpcSw
namespace Dev
namespace Ep

open BitField

/-- The registers of the endpoint that the driver writes, the writes to the registers of its PCS,
and the variable `autoneg_enabled`. -/
structure EpWb where
  ecr : BitVec 32
  tscr : BitVec 32
  rfcr : BitVec 32
  vcr0 : BitVec 32
  mach : BitVec 32
  macl : BitVec 32
  dmcr : BitVec 32
  filter : Pfilter.Endpoint
  pcs : List (Nat × BitVec 16)
  autonegEnabled : Bool

def setMacAddr (devAddr : Vector UInt8 6) (ep : EpWb) : EpWb :=
  { ep with
    macl := place 32 24 devAddr[2]!.toBitVec ||| place 32 16 devAddr[3]!.toBitVec |||
      place 32 8 devAddr[4]!.toBitVec ||| place 32 0 devAddr[5]!.toBitVec
    mach := place 32 8 devAddr[0]!.toBitVec ||| place 32 0 devAddr[1]!.toBitVec }

/-- A byte of a register: the bits of the mask, moved to the right. -/
def regByte (reg mask : BitVec 32) (shift : Nat) : UInt8 :=
  ⟨((reg &&& mask) >>> shift).setWidth 8⟩

def getMacAddr (ep : EpWb) : Vector UInt8 6 :=
  #v[regByte ep.mach 0x0000ff00 8, regByte ep.mach 0x000000ff 0, regByte ep.macl 0xff000000 24,
    regByte ep.macl 0x00ff0000 16, regByte ep.macl 0x0000ff00 8, regByte ep.macl 0x000000ff 0]

/-- `ep_init`, without the reset of the network core. -/
def epInit (macAddr : Vector UInt8 6) (ep : EpWb) : EpWb :=
  { setMacAddr macAddr ep with
    ecr := 0
    vcr0 := 3
    rfcr := 1518 <<< 12
    tscr := 0x3
    dmcr := 0x1 ||| 256 <<< 16 }

/-- `pfilter_init_default` on the endpoint: it reads the address in the registers. -/
def pfilterInitDefault (config : Pfilter.PfilterConfig) (ep : EpWb) : EpWb :=
  { ep with
    filter := (Pfilter.pfilterInitDefault config ep.mach ep.macl).foldl Pfilter.Endpoint.write
      ep.filter }

def pcsWrite (location : Nat) (value : BitVec 16) (ep : EpWb) : EpWb :=
  { ep with pcs := ep.pcs ++ [(location, value)] }

def mdioRegMcr : Nat := 0
def mdioRegAdvertise : Nat := 16

def epEnable (config : Pfilter.PfilterConfig) (enabled autoneg : Bool) (ep : EpWb) : EpWb :=
  if !enabled then { ep with ecr := 0 }
  else
    let ep := pfilterInitDefault config { ep with ecr := 0 }
    -- both paths, and the counters are reset
    let ep := { ep with ecr := 0x40 ||| 0x80 ||| 0x20, autonegEnabled := autoneg }
    let ep := pcsWrite mdioRegMcr 0x0800 ep
    let ep := pcsWrite mdioRegMcr 0x8000 ep
    let ep := pcsWrite mdioRegMcr 0 ep
    let ep := pcsWrite mdioRegAdvertise 0 ep
    let mcr : BitVec 16 := 0x0040 ||| 0x0100
    pcsWrite mdioRegMcr (if autoneg then mcr ||| 0x1000 ||| 0x0200 else mcr) ep

/-! ## The address in the registers -/

/-- A byte under its mask is a field of the register. -/
theorem toBitVec_regByte (reg : BitVec 32) {mask : BitVec 32} {shift : Nat}
    (hmask : mask.extractLsb' shift 8 = BitVec.allOnes 8) :
    (regByte reg mask shift).toBitVec = reg.extractLsb' shift 8 := by
  show ((reg &&& mask) >>> shift).setWidth 8 = _
  rw [BitVec.setWidth_ushiftRight_eq_extractLsb, BitVec.extractLsb'_and, hmask,
    BitVec.and_allOnes]

/-- The bytes that `get_mac_addr` reads, as fields of the registers. -/
theorem toBitVec_getMacAddr (ep : EpWb) :
    (getMacAddr ep)[0]!.toBitVec = ep.mach.extractLsb' 8 8 ∧
      (getMacAddr ep)[1]!.toBitVec = ep.mach.extractLsb' 0 8 ∧
      (getMacAddr ep)[2]!.toBitVec = ep.macl.extractLsb' 24 8 ∧
      (getMacAddr ep)[3]!.toBitVec = ep.macl.extractLsb' 16 8 ∧
      (getMacAddr ep)[4]!.toBitVec = ep.macl.extractLsb' 8 8 ∧
      (getMacAddr ep)[5]!.toBitVec = ep.macl.extractLsb' 0 8 :=
  ⟨toBitVec_regByte ep.mach rfl, toBitVec_regByte ep.mach rfl, toBitVec_regByte ep.macl rfl,
    toBitVec_regByte ep.macl rfl, toBitVec_regByte ep.macl rfl, toBitVec_regByte ep.macl rfl⟩

theorem vector_six_ext {a b : Vector UInt8 6} (h0 : a[0]!.toBitVec = b[0]!.toBitVec)
    (h1 : a[1]!.toBitVec = b[1]!.toBitVec) (h2 : a[2]!.toBitVec = b[2]!.toBitVec)
    (h3 : a[3]!.toBitVec = b[3]!.toBitVec) (h4 : a[4]!.toBitVec = b[4]!.toBitVec)
    (h5 : a[5]!.toBitVec = b[5]!.toBitVec) : a = b := by
  apply Vector.ext
  intro i hi
  apply UInt8.toBitVec_inj.mp
  match i, hi with
  | 0, _ => exact h0
  | 1, _ => exact h1
  | 2, _ => exact h2
  | 3, _ => exact h3
  | 4, _ => exact h4
  | 5, _ => exact h5

/-- The address that was set is the one that is read. -/
theorem getMacAddr_setMacAddr (mac : Vector UInt8 6) (ep : EpWb) :
    getMacAddr (setMacAddr mac ep) = mac := by
  obtain ⟨h0, h1, h2, h3, h4, h5⟩ := toBitVec_getMacAddr (setMacAddr mac ep)
  apply vector_six_ext
  · rw [h0]
    simp [setMacAddr, BitVec.extractLsb'_or]
  · rw [h1]
    simp [setMacAddr, BitVec.extractLsb'_or]
  · rw [h2]
    simp [setMacAddr, BitVec.extractLsb'_or]
  · rw [h3]
    simp [setMacAddr, BitVec.extractLsb'_or]
  · rw [h4]
    simp [setMacAddr, BitVec.extractLsb'_or]
  · rw [h5]
    simp [setMacAddr, BitVec.extractLsb'_or]

/-! ## The address in the filter -/

/-- Two bytes in a word. -/
theorem append_eq_iff (a b : BitVec 8) (w : BitVec 16) :
    a ++ b = w ↔ a = w.extractLsb' 8 8 ∧ b = w.extractLsb' 0 8 := by
  constructor
  · rintro rfl
    exact ⟨BitVec.extractLsb'_append_eq_left.symm, BitVec.extractLsb'_append_eq_right.symm⟩
  · rintro ⟨rfl, rfl⟩
    rw [append_extract]
    exact BitVec.setWidth_eq w

/-- The address of the registers is three words, which are compared with those of a packet. -/
theorem destination_eq_words (mach macl : BitVec 32) (packet : List UInt8) :
    Pfilter.destination packet = Pfilter.ownMac mach macl ↔
      Pfilter.wordAt packet 0 = mach.extractLsb' 0 16 ∧
        Pfilter.wordAt packet 1 = macl.extractLsb' 16 16 ∧
        Pfilter.wordAt packet 2 = macl.extractLsb' 0 16 := by
  have hmach : (Pfilter.ownMac mach macl).extractLsb' 32 16 = mach.extractLsb' 0 16 := by
    rw [Pfilter.ownMac, BitVec.extractLsb'_append_eq_left]
    exact BitVec.setWidth_eq_extractLsb' (by omega)
  have hhigh : (Pfilter.ownMac mach macl).extractLsb' 16 16 = macl.extractLsb' 16 16 :=
    BitVec.extractLsb'_append_eq_of_add_le (by omega)
  have hlow : (Pfilter.ownMac mach macl).extractLsb' 0 16 = macl.extractLsb' 0 16 :=
    BitVec.extractLsb'_append_eq_of_add_le (by omega)
  rw [← Pfilter.destIs_iff, hmach, hhigh, hlow, Pfilter.destIs]
  simp only [Pfilter.and_fullMask, Bool.and_eq_true, beq_iff_eq]
  exact ⟨fun ⟨h2, h1, h0⟩ => ⟨h0, h1, h2⟩, fun ⟨h0, h1, h2⟩ => ⟨h2, h1, h0⟩⟩

/-- A packet goes to the address of the registers when its first bytes are the ones that
`get_mac_addr` reads. -/
theorem destination_eq_iff (ep : EpWb) (packet : List UInt8) :
    Pfilter.destination packet = Pfilter.ownMac ep.mach ep.macl ↔
      ∀ i : Fin 6, packet.getD i 0 = (getMacAddr ep).get i := by
  obtain ⟨h0, h1, h2, h3, h4, h5⟩ := toBitVec_getMacAddr ep
  have hfields : ∀ (reg : BitVec 32) (k : Nat),
      (reg.extractLsb' k 16).extractLsb' 8 8 = reg.extractLsb' (k + 8) 8 ∧
        (reg.extractLsb' k 16).extractLsb' 0 8 = reg.extractLsb' k 8 := by
    intro reg k
    constructor
    · ext i hi
      have hin : 8 + i < 16 := by omega
      simp [hin, Nat.add_assoc]
    · ext i hi
      have hin : i < 16 := by omega
      simp [hin]
  have hbytes : (∀ i : Fin 6, packet.getD i 0 = (getMacAddr ep).get i) ↔
      (packet.getD 0 0 = (getMacAddr ep)[0]! ∧ packet.getD 1 0 = (getMacAddr ep)[1]!) ∧
        (packet.getD 2 0 = (getMacAddr ep)[2]! ∧ packet.getD 3 0 = (getMacAddr ep)[3]!) ∧
        (packet.getD 4 0 = (getMacAddr ep)[4]! ∧ packet.getD 5 0 = (getMacAddr ep)[5]!) := by
    constructor
    · exact fun h => ⟨⟨h 0, h 1⟩, ⟨h 2, h 3⟩, h 4, h 5⟩
    · rintro ⟨⟨h0, h1⟩, ⟨h2, h3⟩, h4, h5⟩ i
      match i with
      | 0 => exact h0
      | 1 => exact h1
      | 2 => exact h2
      | 3 => exact h3
      | 4 => exact h4
      | 5 => exact h5
  rw [destination_eq_words, hbytes]
  simp only [← UInt8.toBitVec_inj]
  rw [h0, h1, h2, h3, h4, h5, Pfilter.wordAt, Pfilter.wordAt, Pfilter.wordAt, append_eq_iff,
    append_eq_iff, append_eq_iff, (hfields _ _).1, (hfields _ _).2, (hfields _ _).1,
    (hfields _ _).2, (hfields _ _).1, (hfields _ _).2]

/-! ## The filter and the registers -/

section Filter

variable (config : Pfilter.PfilterConfig)

/-- The filter runs the default program for the address in the registers. -/
def FilterCurrent (ep : EpWb) : Prop :=
  Pfilter.fetch ep.filter.memory 64 0 =
    Pfilter.defaultProgram Pfilter.instrAssembler config ep.mach ep.macl

theorem filterCurrent_pfilterInitDefault (ep : EpWb) :
    FilterCurrent config (pfilterInitDefault config ep) :=
  Pfilter.fetch_default config ep.mach ep.macl ep.filter

theorem filterCurrent_epEnable (autoneg : Bool) (ep : EpWb) :
    FilterCurrent config (epEnable config true autoneg ep) :=
  filterCurrent_pfilterInitDefault config { ep with ecr := 0 }

theorem getMacAddr_epEnable (enabled autoneg : Bool) (ep : EpWb) :
    getMacAddr (epEnable config enabled autoneg ep) = getMacAddr ep := by
  cases enabled <;> rfl

/-- The first bytes of a packet are the address. -/
def GoesTo (mac : Vector UInt8 6) (packet : List UInt8) : Prop :=
  ∀ i : Fin 6, packet.getD i 0 = mac.get i

/-- The packets that the processor of a node gets: without Etherbone PTP that is multicast or goes
to the node, else ICMP to the node, broadcast ARP, PTP and the replies to the BOOTP client. -/
def ForNode (mac : Vector UInt8 6) (packet : List UInt8) : Prop :=
  match config with
  | .plain =>
      Pfilter.ethertype packet = 0x88f7 ∧
        (GoesTo mac packet ∨ Pfilter.destination packet = Pfilter.ptpMulticast)
  | _ =>
      (Pfilter.ethertype packet = 0x0800 ∧ Pfilter.ipProtocol packet = 1 ∧ GoesTo mac packet) ∨
        (Pfilter.destination packet = Pfilter.broadcast ∧ Pfilter.ethertype packet = 0x0806) ∨
        Pfilter.ethertype packet = 0x88f7 ∨
        ((Pfilter.ethertype packet = 0x0800 ∧ Pfilter.ipProtocol packet = 0x11 ∧
          (GoesTo mac packet ∨ Pfilter.destination packet = Pfilter.broadcast)) ∧
          Pfilter.destPort packet = 68)

/-- The first class of the default program. -/
theorem defaultRegs_cpu (ep : EpWb) (packet : List UInt8) :
    ((Pfilter.defaultProgram Pfilter.instrAssembler config ep.mach ep.macl).foldl
        (Pfilter.Instr.exec (Pfilter.wordAt packet)) (fun _ => false)) (Pfilter.rClass 0) = true ↔
      ForNode config (getMacAddr ep) packet := by
  have hdest := destination_eq_iff ep packet
  cases config with
  | plain =>
      have hptp := Pfilter.plainRegs_ptp ep.mach ep.macl packet
      rw [Pfilter.IsPtp, hdest] at hptp
      exact hptp
  | etherbone =>
      have hcpu := Pfilter.etherboneRegs_cpu ep.mach ep.macl packet
      rw [Pfilter.IsForCpu, Pfilter.IsUdp, hdest] at hcpu
      exact hcpu
  | etherboneNic =>
      -- the two programs agree on this class
      have hcpu := Pfilter.etherboneRegs_cpu ep.mach ep.macl packet
      rw [Pfilter.IsForCpu, Pfilter.IsUdp, hdest] at hcpu
      exact hcpu

/-- A current filter gives the processor the packets for the address of the node. -/
theorem FilterCurrent.classify {config : Pfilter.PfilterConfig} {ep : EpWb}
    (h : FilterCurrent config ep) {packet : List UInt8} (hlen : 38 ≤ packet.length) :
    ∃ r, Pfilter.classify ep.filter.memory packet = some r ∧
      (r (Pfilter.rClass 0) = true ↔ ForNode config (getMacAddr ep) packet) := by
  refine ⟨_, ?_, defaultRegs_cpu config ep packet⟩
  rw [Pfilter.classify, h]
  refine Pfilter.runProgram_eq (n := 19) hlen _ ?_ _
  cases config <;> rfl

end Filter

end Ep
end Dev
end WrpcSw
