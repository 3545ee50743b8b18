import WrpcSw.Dev.Pfilter

/-!
# The default packet filter (`pfilter_init_default`)

The program of the driver, in the three configurations it can be built in.  It is
written once, over the functions that assemble an instruction: with those of the driver
it is the contents of the code buffer, with the constructors of `Instr` it is what the
machine runs.
-/

namespace WrpcSw
namespace Pfilter

open BitField

/-- What `CONFIG_ETHERBONE` and `CONFIG_NIC_PFILTER` select. -/
inductive PfilterConfig
  | plain
  | etherbone
  | etherboneNic
deriving DecidableEq, Repr

/-- The functions a program is assembled with. -/
structure Assembler (α : Type) where
  nop : α
  cmp (offset : BitVec 6) (value : BitVec 32) (mask : BitVec 16) (op : PfilterOp) (rd : BitVec 4) : α
  logic2 (rd ra : Reg) (op : PfilterOp) (rb : Reg) : α
  logic3 (rd ra : Reg) (op : PfilterOp) (rb : Reg) (op2 : PfilterOp) (rc : Reg) : α

/-- `R_CLASS(x)`. -/
def rClass (x : Nat) : Reg := BitVec.ofNat 5 (24 + x)

/-- `R_DROP`. -/
def rDrop : Reg := 23

variable {α : Type}

/-- The comparisons that all configurations begin with. -/
def defaultComparisons (asm : Assembler α) (mach macl : BitVec 32) : List α :=
  [asm.nop,
    asm.cmp 0 0xffff 0xffff .mov 1,
    asm.cmp 1 0xffff 0xffff .and 1,
    -- r1 = 1 when dst mac is broadcast
    asm.cmp 2 0xffff 0xffff .and 1,
    asm.cmp 0 0x011b 0xffff .mov 2,
    asm.cmp 1 0x1900 0xffff .and 2,
    -- r2 = 1 when dst mac is PTP multicast
    asm.cmp 2 0x0000 0xffff .and 2,
    asm.cmp 0 (mach &&& 0xffff) 0xffff .mov 3,
    asm.cmp 1 (macl >>> 16) 0xffff .and 3,
    -- r3 = 1 when the packet is unicast to our own MAC
    asm.cmp 2 (macl &&& 0xffff) 0xffff .and 3,
    -- r4, r5, r6, r9 = 1 when ethertype = IPv4, PTPv2, ARP, streamer
    asm.cmp 6 0x0800 0xffff .mov 4,
    asm.cmp 6 0x88f7 0xffff .mov 5,
    asm.cmp 6 0x0806 0xffff .mov 6,
    asm.cmp 6 0xdbff 0xffff .mov 9,
    -- r7, r8 = 1 when IP type = ICMP, UDP
    asm.cmp 11 0x0001 0x00ff .mov 7,
    asm.cmp 11 0x0011 0x00ff .mov 8]

/-- The classes without Etherbone. -/
def plainClasses (asm : Assembler α) : List α :=
  -- r10 = PTP (multicast or unicast), r11 = streamer broadcast, r12 = the rest
  [asm.logic3 10 3 .or 2 .and 5,
    asm.logic2 11 1 .and 9,
    asm.logic3 12 10 .or 11 .not 0,
    asm.logic2 (rClass 7) 12 .mov 0,
    asm.logic2 (rClass 6) 11 .mov 0,
    asm.logic2 (rClass 0) 10 .mov 0]

/-- The conditions on the IP header and the port. -/
def etherboneConditions (asm : Assembler α) : List α :=
  -- r10 = IP(unicast), r11 = IP(unicast+broadcast)
  [asm.logic3 10 3 .or 0 .and 4,
    asm.logic3 11 1 .or 3 .and 4,
    -- r14 = ARP(broadcast) or PTPv2, r15 = ICMP/IP(unicast) or r14
    asm.logic3 14 1 .and 6 .or 5,
    asm.logic3 15 10 .and 7 .or 14,
    -- r14 = 1 when dport = BOOTPC
    asm.cmp 18 0x0044 0xffff .mov 14,
    -- r14 = BOOTP/UDP/IP(unicast|broadcast), r15 = r14 or r15
    asm.logic3 14 14 .and 8 .and 11,
    asm.logic2 15 14 .or 15]

/-- The classes with Etherbone. -/
def etherboneClasses (asm : Assembler α) : List α :=
  -- r20 = something we accept
  [asm.logic3 20 11 .and 8 .or 15,
    asm.logic3 rDrop 20 .or 9 .not 0,
    asm.logic2 (rClass 7) 11 .and 8,
    asm.logic2 (rClass 6) 1 .and 9,
    asm.logic2 (rClass 0) 15 .mov 0]

/-- The classes with Etherbone and a network interface. -/
def nicClasses (asm : Assembler α) : List α :=
  -- r6 = 1 when dport = ETHERBONE
  [asm.cmp 18 0xebd0 0xffff .mov 6,
    asm.logic2 (rClass 0) 15 .mov 0,
    asm.logic2 (rClass 5) 6 .or 0,
    asm.logic3 (rClass 7) 15 .or 6 .not 0]

/-- The default program, up to FIN. -/
def defaultProgram (asm : Assembler α) (config : PfilterConfig) (mach macl : BitVec 32) : List α :=
  defaultComparisons asm mach macl ++
    match config with
    | .plain => plainClasses asm
    | .etherbone => etherboneConditions asm ++ etherboneClasses asm
    | .etherboneNic => etherboneConditions asm ++ nicClasses asm

/-- The functions of the driver. -/
def driverAssembler : Assembler (BitVec 64) where
  nop := pfilterNop
  cmp := pfilterCmp
  logic2 := pfilterLogic2
  logic3 := pfilterLogic3

/-- The instructions they stand for. -/
def instrAssembler : Assembler Instr where
  nop := .logic 0 0 .and 0 .and 0
  cmp offset value mask op rd := .cmp offset (value.setWidth 16) (nibblesOf mask) op rd
  logic2 rd ra op rb := .logic rd ra op rb .mov 0
  logic3 rd ra op rb op2 rc := .logic rd ra op rb op2 rc

/-- The register writes of `pfilter_init_default`, for the MAC address in `MACH` and `MACL`. -/
def pfilterInitDefault (config : PfilterConfig) (mach macl : BitVec 32) : List EpWrite :=
  pfilterLoad (defaultProgram driverAssembler config mach macl)

/-! ## What the machine runs -/

section Program

variable (config : PfilterConfig) (mach macl : BitVec 32)

/-- The code buffer decodes to the program. -/
theorem decode_defaultProgram :
    (defaultProgram driverAssembler config mach macl).map
        (fun code => decode (code.setWidth 36)) =
      defaultProgram instrAssembler config mach macl := by
  have hcmp : ∀ offset value mask op rd,
      decode ((driverAssembler.cmp offset value mask op rd).setWidth 36) =
        instrAssembler.cmp offset value mask op rd := decode_pfilterCmp
  have hlogic2 : ∀ rd ra op rb, decode ((driverAssembler.logic2 rd ra op rb).setWidth 36) =
      instrAssembler.logic2 rd ra op rb := by
    intro rd ra op rb
    show decode ((pfilterLogic2 rd ra op rb).setWidth 36) = _
    rw [pfilterLogic2_eq, decode_logicFields]
    rfl
  have hlogic3 : ∀ rd ra op rb op2 rc,
      decode ((driverAssembler.logic3 rd ra op rb op2 rc).setWidth 36) =
        instrAssembler.logic3 rd ra op rb op2 rc := by
    intro rd ra op rb op2 rc
    show decode ((pfilterLogic3 rd ra op rb op2 rc).setWidth 36) = _
    rw [pfilterLogic3_eq, decode_logicFields]
    rfl
  have hnop : decode (driverAssembler.nop.setWidth 36) = instrAssembler.nop := by
    show decode (pfilterNop.setWidth 36) = _
    rw [pfilterNop_eq, decode_logicFields]
    rfl
  cases config <;>
    simp only [defaultProgram, defaultComparisons, plainClasses, etherboneConditions,
      etherboneClasses, nicClasses, List.map_append, List.map_cons, List.map_nil, hnop, hcmp,
      hlogic2, hlogic3]

/-- The number of words of the program, without FIN. -/
theorem length_defaultProgram (asm : Assembler α) :
    (defaultProgram asm config mach macl).length =
      match config with
      | .plain => 22
      | .etherbone => 28
      | .etherboneNic => 27 := by
  cases config <;> rfl

/-- No instruction before the end is FIN. -/
theorem defaultProgram_ne_fin :
    ∀ instr ∈ defaultProgram instrAssembler config mach macl, instr ≠ .fin := by
  have hall : (defaultProgram instrAssembler config mach macl).all
      (fun instr => !instr.isFin) = true := by
    cases config <;> rfl
  rintro instr hinstr rfl
  exact absurd (List.all_eq_true.mp hall _ hinstr) (by decide)

/-- Loading the default program and fetching it gives its instructions. -/
theorem fetch_default (ep : Endpoint) :
    fetch ((pfilterInitDefault config mach macl).foldl Endpoint.write ep).memory 64 0 =
      defaultProgram instrAssembler config mach macl := by
  unfold pfilterInitDefault
  rw [fetch_load, decode_defaultProgram]
  · rw [length_defaultProgram]
    cases config <;> decide
  · intro code hcode
    apply defaultProgram_ne_fin config mach macl
    rw [← decode_defaultProgram]
    exact List.mem_map_of_mem hcode

/-- No comparison looks further than its own address. -/
theorem defaultProgram_offsets {pc : Nat} {instr : Instr}
    (h : (defaultProgram instrAssembler config mach macl)[pc]? = some instr) :
    instr.readsBelow (pc + 1) = true := by
  have hall : (defaultProgram instrAssembler config mach macl).zipIdx.all
      (fun e => e.1.readsBelow (e.2 + 1)) = true := by
    cases config <;> rfl
  have hmem : (instr, pc) ∈ (defaultProgram instrAssembler config mach macl).zipIdx :=
    List.mem_zipIdx_iff_getElem?.mpr h
  exact List.all_eq_true.mp hall _ hmem

/-- The registers after a packet that has `n` words. -/
theorem classify_default (ep : Endpoint) {packet : List UInt8} {n : Nat}
    (hlen : 2 * n ≤ packet.length)
    (hreads : (defaultProgram instrAssembler config mach macl).all (Instr.readsBelow n) = true) :
    classify ((pfilterInitDefault config mach macl).foldl Endpoint.write ep).memory packet =
      some ((defaultProgram instrAssembler config mach macl).foldl
        (Instr.exec (wordAt packet)) (fun _ => false)) := by
  unfold classify
  rw [fetch_default]
  exact runProgram_eq hlen _ hreads _

end Program

/-! ## Packets -/

/-- The destination address. -/
def destination (packet : List UInt8) : BitVec 48 :=
  wordAt packet 0 ++ wordAt packet 1 ++ wordAt packet 2

def ethertype (packet : List UInt8) : BitVec 16 := wordAt packet 6

/-- The protocol of an IPv4 packet. -/
def ipProtocol (packet : List UInt8) : BitVec 8 := (packet.getD 23 0).toBitVec

/-- The destination port of an IPv4 packet without options. -/
def destPort (packet : List UInt8) : BitVec 16 := wordAt packet 18

def broadcast : BitVec 48 := 0xffffffffffff

def ptpMulticast : BitVec 48 := 0x011b19000000

/-- The MAC address that `MACH` and `MACL` hold. -/
def ownMac (mach macl : BitVec 32) : BitVec 48 := mach.setWidth 16 ++ macl

/-- The three comparisons with a destination address. -/
def destIs (P : Nat → BitVec 16) (w0 w1 w2 : BitVec 16) : Bool :=
  (P 2 &&& maskOf (nibblesOf 0xffff) == w2) &&
    ((P 1 &&& maskOf (nibblesOf 0xffff) == w1) && (P 0 &&& maskOf (nibblesOf 0xffff) == w0))

/-- The comparison with a whole word. -/
def wordIs (P : Nat → BitVec 16) (offset : Nat) (w : BitVec 16) : Bool :=
  P offset &&& maskOf (nibblesOf 0xffff) == w

/-- The comparison with the low byte of the word that has the protocol. -/
def protocolIs (P : Nat → BitVec 16) (w : BitVec 16) : Bool :=
  P 11 &&& maskOf (nibblesOf 0x00ff) == w

section Packet

variable (packet : List UInt8)

theorem and_fullMask (x : BitVec 16) : x &&& maskOf (nibblesOf 0xffff) = x := by
  rw [show maskOf (nibblesOf 0xffff) = BitVec.allOnes 16 by decide, BitVec.and_allOnes]

theorem wordIs_iff (offset : Nat) (w : BitVec 16) :
    wordIs (wordAt packet) offset w = true ↔ wordAt packet offset = w := by
  rw [wordIs, and_fullMask, beq_iff_eq]

/-- An address is its three words. -/
theorem destIs_iff (a : BitVec 48) :
    destIs (wordAt packet) (a.extractLsb' 32 16) (a.extractLsb' 16 16) (a.extractLsb' 0 16) = true ↔
      destination packet = a := by
  have hsplit : a.extractLsb' 32 16 ++ a.extractLsb' 16 16 ++ a.extractLsb' 0 16 = a := by
    rw [BitVec.extractLsb'_append_extractLsb'_eq_extractLsb' (by decide),
      BitVec.extractLsb'_append_extractLsb'_eq_extractLsb' (by decide)]
    exact BitVec.extractLsb'_eq_self
  unfold destIs destination
  rw [and_fullMask, and_fullMask, and_fullMask, Bool.and_eq_true, Bool.and_eq_true, beq_iff_eq,
    beq_iff_eq, beq_iff_eq]
  constructor
  · rintro ⟨h2, h1, h0⟩
    rw [h0, h1, h2]
    exact hsplit
  · rintro rfl
    refine ⟨?_, ?_, ?_⟩
    · exact (BitVec.extractLsb'_append_eq_right).symm
    · rw [BitVec.extractLsb'_append_eq_of_le (by decide)]
      exact (BitVec.extractLsb'_append_eq_right).symm
    · rw [BitVec.extractLsb'_append_eq_of_le (by decide)]
      exact (BitVec.extractLsb'_append_eq_left).symm

/-- The words that are compared for the own address. -/
theorem ownMac_words (mach macl : BitVec 32) :
    (mach &&& 0xffff).setWidth 16 = (ownMac mach macl).extractLsb' 32 16 ∧
      (macl >>> 16).setWidth 16 = (ownMac mach macl).extractLsb' 16 16 ∧
      (macl &&& 0xffff).setWidth 16 = (ownMac mach macl).extractLsb' 0 16 := by
  have hlow : ∀ x : BitVec 32, (x &&& 0xffff).setWidth 16 = x.setWidth 16 := by
    intro x
    rw [show (0xffff : BitVec 32) = BitVec.ofNat 32 (2 ^ 16 - 1) from rfl,
      and_mask x (by decide)]
    simp
  unfold ownMac
  refine ⟨?_, ?_, ?_⟩
  · rw [hlow, BitVec.extractLsb'_append_eq_left]
  · rw [BitVec.extractLsb'_append_eq_of_add_le (by decide)]
    ext i hi
    simp
  · rw [hlow, BitVec.extractLsb'_append_eq_of_add_le (by decide)]
    ext i hi
    simp

/-- The low byte of the word with the protocol is the protocol. -/
theorem protocolIs_iff (w : BitVec 8) :
    protocolIs (wordAt packet) (w.setWidth 16) = true ↔ ipProtocol packet = w := by
  have hmask : maskOf (nibblesOf 0x00ff) = BitVec.ofNat 16 (2 ^ 8 - 1) := by decide
  have hlow : (wordAt packet 11).setWidth 8 = ipProtocol packet := by
    unfold wordAt
    exact BitVec.setWidth_append_eq_right
  rw [protocolIs, hmask, and_mask _ (by decide), beq_iff_eq, hlow]
  constructor
  · intro h
    simpa using congrArg (BitVec.setWidth 8) h
  · rintro rfl
    rfl

end Packet

/-! ## What is documented -/

section Documented

variable (mach macl : BitVec 32) (packet : List UInt8)

/-- PTP, multicast or to the own address. -/
def IsPtp : Prop :=
  ethertype packet = 0x88f7 ∧
    (destination packet = ownMac mach macl ∨ destination packet = ptpMulticast)

/-- A streamer broadcast. -/
def IsStreamerBroadcast : Prop :=
  destination packet = broadcast ∧ ethertype packet = 0xdbff

/-- UDP over IPv4, to the own address or broadcast. -/
def IsUdp : Prop :=
  ethertype packet = 0x0800 ∧ ipProtocol packet = 0x11 ∧
    (destination packet = ownMac mach macl ∨ destination packet = broadcast)

/-- ICMP over IPv4 to the own address, broadcast ARP, PTPv2, or UDP to the BOOTP client. -/
def IsForCpu : Prop :=
  (ethertype packet = 0x0800 ∧ ipProtocol packet = 1 ∧ destination packet = ownMac mach macl) ∨
    (destination packet = broadcast ∧ ethertype packet = 0x0806) ∨
    ethertype packet = 0x88f7 ∨
    (IsUdp mach macl packet ∧ destPort packet = 68)

end Documented

/-! ## Without Etherbone -/

section Plain

variable (mach macl : BitVec 32) (ep : Endpoint)

/-- The memory after `pfilter_init_default`. -/
def defaultMemory (config : PfilterConfig) (mach macl : BitVec 32) (ep : Endpoint) :
    BitVec 6 → BitVec 36 :=
  ((pfilterInitDefault config mach macl).foldl Endpoint.write ep).memory

/-- The comparison with the own address. -/
def destIsOwn (P : Nat → BitVec 16) (mach macl : BitVec 32) : Bool :=
  destIs P ((mach &&& 0xffff).setWidth 16) ((macl >>> 16).setWidth 16)
    ((macl &&& 0xffff).setWidth 16)

theorem destIsOwn_iff (packet : List UInt8) :
    destIsOwn (wordAt packet) mach macl = true ↔ destination packet = ownMac mach macl := by
  obtain ⟨h0, h1, h2⟩ := ownMac_words mach macl
  unfold destIsOwn
  rw [h0, h1, h2]
  exact destIs_iff packet (ownMac mach macl)

theorem destIs_broadcast (packet : List UInt8) :
    destIs (wordAt packet) 0xffff 0xffff 0xffff = true ↔ destination packet = broadcast :=
  destIs_iff packet broadcast

theorem destIs_ptpMulticast (packet : List UInt8) :
    destIs (wordAt packet) 0x011b 0x1900 0x0000 = true ↔ destination packet = ptpMulticast :=
  destIs_iff packet ptpMulticast

/-- The registers after the program without Etherbone. -/
def plainRegs (P : Nat → BitVec 16) (mach macl : BitVec 32) : Regs :=
  (defaultProgram instrAssembler .plain mach macl).foldl (Instr.exec P) (fun _ => false)

/-- Class 0 is PTP, class 6 the streamer broadcasts, class 7 the rest; the others and the drop
flag stay zero. -/
theorem plainRegs_classes (P : Nat → BitVec 16) :
    plainRegs P mach macl (rClass 0) =
        ((destIsOwn P mach macl || destIs P 0x011b 0x1900 0x0000) && wordIs P 6 0x88f7) ∧
      plainRegs P mach macl (rClass 6) =
        (destIs P 0xffff 0xffff 0xffff && wordIs P 6 0xdbff) ∧
      plainRegs P mach macl (rClass 7) =
        !(plainRegs P mach macl (rClass 0) || plainRegs P mach macl (rClass 6)) ∧
      plainRegs P mach macl rDrop = false ∧
      ∀ c, c < 8 → c ≠ 0 → c ≠ 6 → c ≠ 7 → plainRegs P mach macl (rClass c) = false := by
  refine ⟨rfl, rfl, rfl, rfl, ?_⟩
  intro c hc h0 h6 h7
  interval_cases c <;> first | rfl | contradiction

/-- A frame has one ethertype. -/
theorem not_ptp_and_streamer (packet : List UInt8) :
    ¬(IsPtp mach macl packet ∧ IsStreamerBroadcast packet) := by
  rintro ⟨⟨hptp, -⟩, -, hstreamer⟩
  rw [hptp] at hstreamer
  exact absurd hstreamer (by decide)

/-- Every word of the microcode memory is one of the program, up to FIN. -/
theorem fetch_defaultMemory (config : PfilterConfig) :
    fetch (defaultMemory config mach macl ep) 64 0 =
      defaultProgram instrAssembler config mach macl :=
  fetch_default config mach macl ep

/-- The comparisons do not look ahead of the program counter. -/
theorem defaultMemory_offsets (config : PfilterConfig) {pc : Nat} {offset : BitVec 6}
    {value : BitVec 16} {nibbles : BitVec 4} {op : PfilterOp} {rd : BitVec 4}
    (h : (fetch (defaultMemory config mach macl ep) 64 0)[pc]? =
      some (.cmp offset value nibbles op rd)) :
    offset.toNat ≤ pc := by
  rw [fetch_defaultMemory] at h
  have hbelow := defaultProgram_offsets config mach macl h
  simp only [Instr.readsBelow, decide_eq_true_eq] at hbelow
  exact Nat.le_of_lt_succ hbelow

theorem plainRegs_ptp (packet : List UInt8) :
    plainRegs (wordAt packet) mach macl (rClass 0) = true ↔ IsPtp mach macl packet := by
  obtain ⟨h0, -⟩ := plainRegs_classes mach macl (wordAt packet)
  rw [h0, Bool.and_eq_true, Bool.or_eq_true, destIsOwn_iff, destIs_ptpMulticast, wordIs_iff,
    and_comm]
  rfl

theorem plainRegs_streamer (packet : List UInt8) :
    plainRegs (wordAt packet) mach macl (rClass 6) = true ↔ IsStreamerBroadcast packet := by
  obtain ⟨-, h6, -⟩ := plainRegs_classes mach macl (wordAt packet)
  rw [h6, Bool.and_eq_true, destIs_broadcast, wordIs_iff]
  rfl

theorem plainRegs_rest (packet : List UInt8) :
    plainRegs (wordAt packet) mach macl (rClass 7) = true ↔
      ¬IsPtp mach macl packet ∧ ¬IsStreamerBroadcast packet := by
  obtain ⟨-, -, h7, -⟩ := plainRegs_classes mach macl (wordAt packet)
  rw [h7, Bool.not_eq_true', Bool.or_eq_false_iff, ← plainRegs_ptp, ← plainRegs_streamer,
    Bool.not_eq_true, Bool.not_eq_true]

/-- Every packet has one class. -/
theorem plainRegs_existsUnique (packet : List UInt8) :
    ∃! c, c < 8 ∧ plainRegs (wordAt packet) mach macl (rClass c) = true := by
  obtain ⟨-, -, -, -, hother⟩ := plainRegs_classes mach macl (wordAt packet)
  have hptp := plainRegs_ptp mach macl packet
  have hstreamer := plainRegs_streamer mach macl packet
  have hrest := plainRegs_rest mach macl packet
  -- the classes that the program does not write are never the one
  have hclass : ∀ c, c < 8 → plainRegs (wordAt packet) mach macl (rClass c) = true →
      c = 0 ∨ c = 6 ∨ c = 7 := by
    intro c hc hset
    by_contra hne
    push Not at hne
    rw [hother c hc hne.1 hne.2.1 hne.2.2] at hset
    exact absurd hset Bool.false_ne_true
  by_cases hp : IsPtp mach macl packet
  · refine ⟨0, ⟨by decide, hptp.mpr hp⟩, ?_⟩
    rintro c ⟨hc, hset⟩
    rcases hclass c hc hset with rfl | rfl | rfl
    · rfl
    · exact absurd ⟨hp, hstreamer.mp hset⟩ (not_ptp_and_streamer mach macl packet)
    · exact absurd hp (hrest.mp hset).1
  by_cases hs : IsStreamerBroadcast packet
  · refine ⟨6, ⟨by decide, hstreamer.mpr hs⟩, ?_⟩
    rintro c ⟨hc, hset⟩
    rcases hclass c hc hset with rfl | rfl | rfl
    · exact absurd (hptp.mp hset) hp
    · rfl
    · exact absurd hs (hrest.mp hset).2
  · refine ⟨7, ⟨by decide, hrest.mpr ⟨hp, hs⟩⟩, ?_⟩
    rintro c ⟨hc, hset⟩
    rcases hclass c hc hset with rfl | rfl | rfl
    · exact absurd (hptp.mp hset) hp
    · exact absurd (hstreamer.mp hset) hs
    · rfl

/-- Without Etherbone, PTP is class 0, a streamer broadcast is class 6 and the rest is class 7;
nothing is dropped, and the program is short enough for the hardware. -/
theorem plainFilter_classifies :
    (∀ packet : List UInt8, 24 ≤ packet.length →
      ∃ r, classify (defaultMemory .plain mach macl ep) packet = some r ∧
        (r (rClass 0) = true ↔ IsPtp mach macl packet) ∧
        (r (rClass 6) = true ↔ IsStreamerBroadcast packet) ∧
        (r (rClass 7) = true ↔ ¬IsPtp mach macl packet ∧ ¬IsStreamerBroadcast packet) ∧
        r rDrop = false ∧ ∃! c, c < 8 ∧ r (rClass c) = true) ∧
      (fetch (defaultMemory .plain mach macl ep) 64 0).length + 1 ≤ 32 ∧
      ∀ (pc : Nat) (offset : BitVec 6) (value : BitVec 16) (nibbles : BitVec 4) (op : PfilterOp)
        (rd : BitVec 4),
        (fetch (defaultMemory .plain mach macl ep) 64 0)[pc]? =
          some (.cmp offset value nibbles op rd) → offset.toNat ≤ pc := by
  refine ⟨?_, ?_, ?_⟩
  · intro packet hlen
    obtain ⟨-, -, -, hdrop, -⟩ := plainRegs_classes mach macl (wordAt packet)
    exact ⟨_, classify_default .plain mach macl ep (n := 12) hlen rfl,
      plainRegs_ptp mach macl packet, plainRegs_streamer mach macl packet,
      plainRegs_rest mach macl packet, hdrop, plainRegs_existsUnique mach macl packet⟩
  · rw [fetch_defaultMemory, length_defaultProgram]
    decide
  · intro pc offset value nibbles op rd h
    exact defaultMemory_offsets mach macl ep .plain h

/-- A PTP multicast frame of 60 bytes goes to class 0, whatever the own address. -/
theorem plainFilter_ptpMulticast :
    ∃ r, classify (defaultMemory .plain 0x2233 0x44556677 ⟨0, fun _ => 0⟩)
        ([0x01, 0x1b, 0x19, 0, 0, 0, 0, 0, 0, 0, 0, 0, 0x88, 0xf7] ++ List.replicate 46 0) =
          some r ∧ r (rClass 0) = true ∧ r rDrop = false := by
  have hall := (plainFilter_classifies 0x2233 0x44556677 ⟨0, fun _ => 0⟩).1
    ([0x01, 0x1b, 0x19, 0, 0, 0, 0, 0, 0, 0, 0, 0, 0x88, 0xf7] ++ List.replicate 46 0) (by decide)
  obtain ⟨r, hr, hptp, -, -, hdrop, -⟩ := hall
  exact ⟨r, hr, hptp.mpr ⟨by decide, Or.inr (by decide)⟩, hdrop⟩

end Plain

/-! ## With Etherbone -/

section Etherbone

variable (mach macl : BitVec 32) (ep : Endpoint)

/-- The registers after the program with Etherbone. -/
def etherboneRegs (P : Nat → BitVec 16) (mach macl : BitVec 32) : Regs :=
  (defaultProgram instrAssembler .etherbone mach macl).foldl (Instr.exec P) (fun _ => false)

/-- The drop flag and the classes, over the conditions of the comments in the program. -/
theorem etherboneRegs_classes (P : Nat → BitVec 16) :
    let toUs := destIs P 0xffff 0xffff 0xffff || destIsOwn P mach macl
    let udp := (toUs && wordIs P 6 0x0800) && protocolIs P 0x11
    let icmp := ((destIsOwn P mach macl || false) && wordIs P 6 0x0800) && protocolIs P 0x01
    let arp := destIs P 0xffff 0xffff 0xffff && wordIs P 6 0x0806
    let bootp := (wordIs P 18 0x0044 && protocolIs P 0x11) && (toUs && wordIs P 6 0x0800)
    etherboneRegs P mach macl (rClass 0) = (bootp || (icmp || (arp || wordIs P 6 0x88f7))) ∧
      etherboneRegs P mach macl (rClass 6) =
        (destIs P 0xffff 0xffff 0xffff && wordIs P 6 0xdbff) ∧
      etherboneRegs P mach macl (rClass 7) = udp ∧
      etherboneRegs P mach macl rDrop =
        !((udp || etherboneRegs P mach macl (rClass 0)) || wordIs P 6 0xdbff) ∧
      ∀ c, c < 8 → c ≠ 0 → c ≠ 6 → c ≠ 7 → etherboneRegs P mach macl (rClass c) = false := by
  refine ⟨rfl, rfl, rfl, rfl, ?_⟩
  intro c hc h0 h6 h7
  interval_cases c <;> first | rfl | contradiction

theorem etherboneRegs_udp (packet : List UInt8) :
    etherboneRegs (wordAt packet) mach macl (rClass 7) = true ↔ IsUdp mach macl packet := by
  obtain ⟨-, -, h7, -⟩ := etherboneRegs_classes mach macl (wordAt packet)
  have hudp := protocolIs_iff packet 0x11
  rw [h7, Bool.and_eq_true, Bool.and_eq_true, Bool.or_eq_true, destIs_broadcast, destIsOwn_iff,
    wordIs_iff]
  unfold IsUdp ethertype
  rw [← hudp, or_comm, and_assoc, and_comm, and_assoc]
  rfl

theorem etherboneRegs_streamer (packet : List UInt8) :
    etherboneRegs (wordAt packet) mach macl (rClass 6) = true ↔ IsStreamerBroadcast packet := by
  obtain ⟨-, h6, -⟩ := etherboneRegs_classes mach macl (wordAt packet)
  rw [h6, Bool.and_eq_true, destIs_broadcast, wordIs_iff]
  rfl

theorem etherboneRegs_cpu (packet : List UInt8) :
    etherboneRegs (wordAt packet) mach macl (rClass 0) = true ↔ IsForCpu mach macl packet := by
  obtain ⟨h0, -⟩ := etherboneRegs_classes mach macl (wordAt packet)
  have hudp := protocolIs_iff packet 0x11
  have hicmp := protocolIs_iff packet 0x01
  unfold IsForCpu IsUdp ethertype destPort
  rw [h0, ← hudp, ← hicmp]
  simp only [Bool.or_eq_true, Bool.and_eq_true, Bool.or_false, destIs_broadcast, destIsOwn_iff,
    wordIs_iff]
  constructor
  · rintro (⟨⟨hport, hproto⟩, hdest, htype⟩ | ⟨⟨hdest, htype⟩, hproto⟩ | harp | hptp)
    · exact Or.inr (Or.inr (Or.inr ⟨⟨htype, hproto, hdest.symm⟩, hport⟩))
    · exact Or.inl ⟨htype, hproto, hdest⟩
    · exact Or.inr (Or.inl harp)
    · exact Or.inr (Or.inr (Or.inl hptp))
  · rintro (⟨htype, hproto, hdest⟩ | harp | hptp | ⟨⟨htype, hproto, hdest⟩, hport⟩)
    · exact Or.inr (Or.inl ⟨⟨hdest, htype⟩, hproto⟩)
    · exact Or.inr (Or.inr (Or.inl harp))
    · exact Or.inr (Or.inr (Or.inr hptp))
    · exact Or.inl ⟨⟨hport, hproto⟩, hdest.symm, htype⟩

/-- The drop flag does not look at the destination of a streamer frame. -/
theorem etherboneRegs_drop (packet : List UInt8) :
    etherboneRegs (wordAt packet) mach macl rDrop = true ↔
      ¬IsUdp mach macl packet ∧ ¬IsForCpu mach macl packet ∧ ethertype packet ≠ 0xdbff := by
  obtain ⟨-, -, h7, hdrop, -⟩ := etherboneRegs_classes mach macl (wordAt packet)
  rw [hdrop, ← h7, Bool.not_eq_true', Bool.or_eq_false_iff, Bool.or_eq_false_iff,
    ← etherboneRegs_udp, ← etherboneRegs_cpu, Bool.not_eq_true, Bool.not_eq_true, and_assoc,
    ← Bool.not_eq_true (wordIs _ _ _), wordIs_iff]
  rfl

/-- A packet is dropped or has a class, and the classes are those that are documented. -/
structure Dispatched (r : Regs) (packet : List UInt8) : Prop where
  destined : r rDrop = true ∨ ∃ c, c < 8 ∧ r (rClass c) = true
  notBoth : ¬(r rDrop = true ∧ ∃ c, c < 8 ∧ r (rClass c) = true)
  cpu : r (rClass 0) = true ↔ IsForCpu mach macl packet
  udp : r (rClass 7) = true ↔ IsUdp mach macl packet
  streamer : r (rClass 6) = true ↔ IsStreamerBroadcast packet

/-- Only the three classes are ever set. -/
theorem etherboneRegs_class (packet : List UInt8) :
    (∃ c, c < 8 ∧ etherboneRegs (wordAt packet) mach macl (rClass c) = true) ↔
      IsForCpu mach macl packet ∨ IsStreamerBroadcast packet ∨ IsUdp mach macl packet := by
  obtain ⟨-, -, -, -, hother⟩ := etherboneRegs_classes mach macl (wordAt packet)
  rw [← etherboneRegs_cpu, ← etherboneRegs_streamer, ← etherboneRegs_udp]
  constructor
  · rintro ⟨c, hc, hset⟩
    by_cases h0 : c = 0
    · exact Or.inl (h0 ▸ hset)
    by_cases h6 : c = 6
    · exact Or.inr (Or.inl (h6 ▸ hset))
    by_cases h7 : c = 7
    · exact Or.inr (Or.inr (h7 ▸ hset))
    rw [hother c hc h0 h6 h7] at hset
    exact absurd hset Bool.false_ne_true
  · rintro (h | h | h)
    · exact ⟨0, by decide, h⟩
    · exact ⟨6, by decide, h⟩
    · exact ⟨7, by decide, h⟩

/-- A frame of the streamer's ethertype is for nobody else. -/
theorem not_accepted_of_streamer {packet : List UInt8} (h : ethertype packet = 0xdbff) :
    ¬IsForCpu mach macl packet ∧ ¬IsUdp mach macl packet := by
  have hudp : ¬IsUdp mach macl packet := by
    rintro ⟨htype, -⟩
    rw [h] at htype
    exact absurd htype (by decide)
  refine ⟨?_, hudp⟩
  rintro (⟨htype, -⟩ | ⟨-, htype⟩ | htype | ⟨hsame, -⟩)
  · rw [h] at htype
    exact absurd htype (by decide)
  · rw [h] at htype
    exact absurd htype (by decide)
  · rw [h] at htype
    exact absurd htype (by decide)
  · exact hudp hsame

/-- With Etherbone a packet is dispatched as documented, unless it has the ethertype of the
streamer and another destination than broadcast: then it is neither dropped nor given a class. -/
theorem etherboneFilter_dispatched_iff {packet : List UInt8} (hlen : 38 ≤ packet.length) :
    (∃ r, classify (defaultMemory .etherbone mach macl ep) packet = some r ∧
        Dispatched mach macl r packet) ↔
      ¬(ethertype packet = 0xdbff ∧ destination packet ≠ broadcast) := by
  have hrun : classify (defaultMemory .etherbone mach macl ep) packet =
      some (etherboneRegs (wordAt packet) mach macl) :=
    classify_default .etherbone mach macl ep (n := 19) hlen rfl
  have hdrop := etherboneRegs_drop mach macl packet
  have hclass := etherboneRegs_class mach macl packet
  constructor
  · rintro ⟨r, hr, hdispatched⟩ ⟨htype, hdest⟩
    rw [hrun] at hr
    obtain rfl := Option.some.inj hr
    obtain ⟨hcpu, hudp⟩ := not_accepted_of_streamer mach macl htype
    have hdestined := hdispatched.destined
    rw [hdrop, hclass] at hdestined
    rcases hdestined with ⟨-, -, hne⟩ | hset | ⟨hset, -⟩ | hset
    · exact hne htype
    · exact hcpu hset
    · exact hdest hset
    · exact hudp hset
  · intro hcond
    refine ⟨_, hrun, ?_, ?_, etherboneRegs_cpu mach macl packet,
      etherboneRegs_udp mach macl packet, etherboneRegs_streamer mach macl packet⟩
    · rw [hdrop, hclass]
      by_cases hcpu : IsForCpu mach macl packet
      · exact Or.inr (Or.inl hcpu)
      by_cases hudp : IsUdp mach macl packet
      · exact Or.inr (Or.inr (Or.inr hudp))
      by_cases htype : ethertype packet = 0xdbff
      · have hdest : destination packet = broadcast := by
          by_contra hne
          exact hcond ⟨htype, hne⟩
        exact Or.inr (Or.inr (Or.inl ⟨hdest, htype⟩))
      · exact Or.inl ⟨hudp, hcpu, htype⟩
    · rw [hdrop, hclass]
      rintro ⟨⟨hudp, hcpu, htype⟩, h | h | h⟩
      · exact hcpu h
      · exact htype h.2
      · exact hudp h

/-- A minimal IPv4 frame with no options: an ICMP packet to `22:33:44:55:66:77`. -/
def icmpFrame : List UInt8 :=
  [0x22, 0x33, 0x44, 0x55, 0x66, 0x77, 0, 0, 0, 0, 0, 0, 0x08, 0x00] ++ List.replicate 9 0 ++ [1] ++
    List.replicate 36 0

/-- The same frame with the ethertype of the streamer. -/
def unicastStreamerFrame : List UInt8 :=
  [0x22, 0x33, 0x44, 0x55, 0x66, 0x77, 0, 0, 0, 0, 0, 0, 0xdb, 0xff] ++ List.replicate 46 0

theorem etherboneFilter_icmp :
    ∃ r, classify (defaultMemory .etherbone 0x2233 0x44556677 ⟨0, fun _ => 0⟩) icmpFrame =
      some r ∧ Dispatched 0x2233 0x44556677 r icmpFrame :=
  (@etherboneFilter_dispatched_iff 0x2233 0x44556677 ⟨0, fun _ => 0⟩ icmpFrame
    (by decide)).mpr (by decide)

/-- A unicast frame of the streamer to our own address is neither dropped nor classified. -/
theorem etherboneFilter_loses :
    ¬∀ (mach macl : BitVec 32) (ep : Endpoint) (packet : List UInt8), 38 ≤ packet.length →
      ∃ r, classify (defaultMemory .etherbone mach macl ep) packet = some r ∧
        Dispatched mach macl r packet := by
  intro hall
  obtain ⟨r, hr, hdispatched⟩ :=
    hall 0x2233 0x44556677 ⟨0, fun _ => 0⟩ unicastStreamerFrame (by decide)
  have hrun : classify (defaultMemory .etherbone 0x2233 0x44556677 ⟨0, fun _ => 0⟩)
      unicastStreamerFrame = some (etherboneRegs (wordAt unicastStreamerFrame) 0x2233 0x44556677) :=
    classify_default .etherbone 0x2233 0x44556677 ⟨0, fun _ => 0⟩ (n := 19) (by decide) rfl
  rw [hrun] at hr
  obtain rfl := Option.some.inj hr
  rcases hdispatched.destined with hdrop | ⟨c, hc, hset⟩
  · exact absurd hdrop (by decide)
  · interval_cases c <;> exact absurd hset (by decide)

end Etherbone

end Pfilter
end WrpcSw
