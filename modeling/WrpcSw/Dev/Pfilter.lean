import WrpcSw.Lib.BitField

/-!
# The packet filter of the endpoint (`dev/ep_pfilter.c`)

The endpoint classifies incoming packets with a microprogram.  The driver assembles
the program into 64-bit words, of which 36 bits count, and loads it through two
registers.  The instruction set and its meaning are those of the comment at the top
of the source file: 32 one-bit registers, register 0 always zero, register 23 the drop
flag, registers 24 to 31 the classes.

* `decode_pfilterCmp`, `decode_pfilterLogic2`, `decode_pfilterLogic3` — what the
  assembler functions encode is what the machine decodes.
* `fetch_load` — the program in the memory after `pfilter_load` is the one assembled.
* `runProgram_eq` — a packet that is long enough for every comparison runs as if it
  had no end.
-/

namespace WrpcSw
namespace Pfilter

open BitField

/-! ## Instructions -/

/-- `pfilter_op_t`. -/
inductive PfilterOp
  | and | or | xor | mov | nand | nor | xnor | not
deriving DecidableEq, Repr

/-- The value of the enumeration constant. -/
def PfilterOp.code : PfilterOp → BitVec 3
  | .and => 0
  | .or => 1
  | .xor => 2
  | .mov => 3
  | .nand => 4
  | .nor => 5
  | .xnor => 6
  | .not => 7

def PfilterOp.ofCode (code : BitVec 3) : PfilterOp :=
  if code = 0 then .and
  else if code = 1 then .or
  else if code = 2 then .xor
  else if code = 3 then .mov
  else if code = 4 then .nand
  else if code = 5 then .nor
  else if code = 6 then .xnor
  else .not

@[simp] theorem ofCode_code (op : PfilterOp) : PfilterOp.ofCode op.code = op := by
  cases op <;> rfl

/-- `a OPER b`.  `MOV` and `NOT` take the first operand as the source. -/
def PfilterOp.eval (op : PfilterOp) (a b : Bool) : Bool :=
  match op with
  | .and => a && b
  | .or => a || b
  | .xor => a ^^ b
  | .mov => a
  | .nand => !(a && b)
  | .nor => !(a || b)
  | .xnor => !(a ^^ b)
  | .not => !a

/-- A register number. -/
abbrev Reg := BitVec 5

/-- The instructions that the assembler functions make. -/
inductive Instr
  | cmp (offset : BitVec 6) (value : BitVec 16) (nibbles : BitVec 4) (op : PfilterOp) (rd : BitVec 4)
  | logic (rd ra : Reg) (op : PfilterOp) (rb : Reg) (op2 : PfilterOp) (rc : Reg)
  | fin
deriving DecidableEq, Repr

/-! ## The assembler -/

def pfModeLogic : BitVec 64 := 1#64 <<< 34
def pfModeCmp : BitVec 64 := 0#64

/-- The word of a comparison: the offset is in words, of the mask one bit a nibble is kept. -/
def pfilterCmp (offset : BitVec 6) (value : BitVec 32) (mask : BitVec 16) (op : PfilterOp)
    (rd : BitVec 4) : BitVec 64 :=
  let ir := (pfModeCmp ||| (offset.setWidth 64 <<< 7)
      ||| (if mask &&& 0x1 ≠ 0 then 1#64 <<< 29 else 0)
      ||| (if mask &&& 0x10 ≠ 0 then 1#64 <<< 30 else 0)
      ||| (if mask &&& 0x100 ≠ 0 then 1#64 <<< 31 else 0)
      ||| (if mask &&& 0x1000 ≠ 0 then 1#64 <<< 32 else 0))
    ||| op.code.setWidth 64 ||| (rd.setWidth 64 <<< 3)
  ir ||| (value.setWidth 64 &&& 0xffff) <<< 13

def pfilterNop : BitVec 64 := pfModeLogic

/-- The word of `rd = ra op rb`. -/
def pfilterLogic2 (rd ra : Reg) (op : PfilterOp) (rb : Reg) : BitVec 64 :=
  let ir := (ra.setWidth 64 <<< 8) ||| (rb.setWidth 64 <<< 13)
    ||| ((rd.setWidth 64 &&& 0xf) <<< 3) ||| (if rd.setWidth 64 &&& 0x10 ≠ 0 then 1#64 <<< 7 else 0)
    ||| op.code.setWidth 64
  ir ||| pfModeLogic ||| (3#64 <<< 23)

/-- The word of `rd = (ra op rb) op2 rc`. -/
def pfilterLogic3 (rd ra : Reg) (op : PfilterOp) (rb : Reg) (op2 : PfilterOp) (rc : Reg) :
    BitVec 64 :=
  let ir := (ra.setWidth 64 <<< 8) ||| (rb.setWidth 64 <<< 13) ||| (rc.setWidth 64 <<< 18)
    ||| ((rd.setWidth 64 &&& 0xf) <<< 3) ||| (if rd.setWidth 64 &&& 0x10 ≠ 0 then 1#64 <<< 7 else 0)
    ||| op.code.setWidth 64
  ir ||| pfModeLogic ||| (op2.code.setWidth 64 <<< 23)

/-- The FIN instruction. -/
def pfilterFin : BitVec 64 := 1#64 <<< 35

/-! ## Loading -/

/-- A write to one of the two registers of the microcode memory. -/
inductive EpWrite
  | pfcr0 (value : BitVec 32)
  | pfcr1 (value : BitVec 32)
deriving DecidableEq, Repr

/-- `WBGEN2_GEN_WRITE(value, offset, size)`. -/
def wbgen2GenWrite (value : BitVec 64) (offset size : Nat) : BitVec 64 :=
  (value &&& BitVec.ofNat 64 (2 ^ size - 1)) <<< offset

/-- The two writes of the word at position `i` of the code buffer. -/
def loadWord (i : Nat) (code : BitVec 64) : List EpWrite :=
  let cr1 := wbgen2GenWrite (code &&& 0xfff) 0 12
  let cr0 := wbgen2GenWrite (BitVec.ofNat 64 i) 0 6 ||| wbgen2GenWrite (code >>> 12) 8 24
    ||| (1#64 <<< 6)
  [.pfcr1 (cr1.setWidth 32), .pfcr0 (cr0.setWidth 32)]

/-- The writes of the words of the code buffer from position `i` on. -/
def loadFrom : Nat → List (BitVec 64) → List EpWrite
  | _, [] => []
  | i, code :: codes => loadWord i code ++ loadFrom (i + 1) codes

/-- Terminate the program, load it and enable the filter. -/
def pfilterLoad (codeBuf : List (BitVec 64)) : List EpWrite :=
  .pfcr0 0 :: loadFrom 0 (codeBuf ++ [pfilterFin]) ++ [.pfcr0 (1#32 <<< 7)]

/-- The endpoint: `PFCR1` and the microcode memory. -/
structure Endpoint where
  pfcr1 : BitVec 32
  memory : BitVec 6 → BitVec 36

/-- A write to `PFCR0` with the write bit set stores a word. -/
def Endpoint.write (ep : Endpoint) : EpWrite → Endpoint
  | .pfcr1 value => { ep with pfcr1 := value }
  | .pfcr0 value =>
      if value.extractLsb' 6 1 = 1 then
        { ep with
          memory := Function.update ep.memory (value.extractLsb' 0 6)
            (value.extractLsb' 8 24 ++ ep.pfcr1.extractLsb' 0 12) }
      else ep

/-! ## Execution -/

/-- The instruction of a word of the microcode memory. -/
def decode (word : BitVec 36) : Instr :=
  if word.extractLsb' 35 1 = 1 then .fin
  else if word.extractLsb' 34 1 = 1 then
    .logic (word.extractLsb' 3 5) (word.extractLsb' 8 5) (.ofCode (word.extractLsb' 0 3))
      (word.extractLsb' 13 5) (.ofCode (word.extractLsb' 23 3)) (word.extractLsb' 18 5)
  else
    .cmp (word.extractLsb' 7 6) (word.extractLsb' 13 16) (word.extractLsb' 29 4)
      (.ofCode (word.extractLsb' 0 3)) (word.extractLsb' 3 4)

/-- The instructions from address `pc` up to FIN, at most `n` of them. -/
def fetch (memory : BitVec 6 → BitVec 36) : Nat → Nat → List Instr
  | 0, _ => []
  | n + 1, pc =>
      match decode (memory (BitVec.ofNat 6 pc)) with
      | .fin => []
      | instr => instr :: fetch memory n (pc + 1)

/-- The one-bit registers. -/
abbrev Regs := Reg → Bool

/-- Register 0 is always zero. -/
def Regs.set (r : Regs) (rd : Reg) (b : Bool) : Regs :=
  fun i => if i = rd ∧ rd ≠ 0 then b else r i

/-- The mask of which one bit a nibble is kept. -/
def maskOf (nibbles : BitVec 4) : BitVec 16 :=
  (if nibbles.getLsbD 0 then 0x000f else 0) ||| (if nibbles.getLsbD 1 then 0x00f0 else 0)
    ||| (if nibbles.getLsbD 2 then 0x0f00 else 0) ||| (if nibbles.getLsbD 3 then 0xf000 else 0)

/-- One instruction, on the registers and the words of the packet. -/
def Instr.exec (packet : Nat → BitVec 16) (r : Regs) : Instr → Regs
  | .cmp offset value nibbles op rd =>
      r.set (rd.setWidth 5)
        (op.eval (packet offset.toNat &&& maskOf nibbles == value) (r (rd.setWidth 5)))
  | .logic rd ra op rb op2 rc => r.set rd (op2.eval (op.eval (r ra) (r rb)) (r rc))
  | .fin => r

def Instr.isFin : Instr → Bool
  | .fin => true
  | _ => false

/-- The last word that an instruction looks at is below `n`. -/
def Instr.readsBelow (n : Nat) : Instr → Bool
  | .cmp offset .. => offset.toNat < n
  | _ => true

/-- The word of two bytes at a word offset of a packet. -/
def wordAt (packet : List UInt8) (offset : Nat) : BitVec 16 :=
  (packet.getD (2 * offset) 0).toBitVec ++ (packet.getD (2 * offset + 1) 0).toBitVec

/-- The program on a packet, which fails on a comparison with a word that the packet does not
have. -/
def runProgram (packet : List UInt8) : Regs → List Instr → Option Regs
  | r, [] => some r
  | r, instr :: instrs =>
      if instr.readsBelow (packet.length / 2) then
        runProgram packet (instr.exec (wordAt packet) r) instrs
      else none

/-- The registers after the packet, starting with all registers zero. -/
def classify (memory : BitVec 6 → BitVec 36) (packet : List UInt8) : Option Regs :=
  runProgram packet (fun _ => false) (fetch memory 64 0)

/-! ## Encoding and decoding -/

section Decode

/-- The nibbles of a mask of which the code keeps a bit. -/
def nibblesOf (mask : BitVec 16) : BitVec 4 :=
  BitVec.ofBool (mask &&& 0x1000 ≠ 0) ++ BitVec.ofBool (mask &&& 0x100 ≠ 0) ++
    BitVec.ofBool (mask &&& 0x10 ≠ 0) ++ BitVec.ofBool (mask &&& 0x1 ≠ 0)

theorem ite_place (c : Prop) [Decidable c] (k : Nat) :
    (if c then 1#64 <<< k else 0) = place 64 k (BitVec.ofBool (decide c)) := by
  by_cases h : c
  · simp [h, place]
  · simp [h, place]

theorem bits_place : ∀ b0 b1 b2 b3 : Bool,
    place 64 29 (BitVec.ofBool b0) ||| place 64 30 (BitVec.ofBool b1) |||
        place 64 31 (BitVec.ofBool b2) ||| place 64 32 (BitVec.ofBool b3) =
      place 64 29 (BitVec.ofBool b3 ++ BitVec.ofBool b2 ++ BitVec.ofBool b1 ++
        BitVec.ofBool b0) := by
  decide

/-- The two parts of a destination register number. -/
theorem rd_place (rd : Reg) :
    ((rd.setWidth 64 &&& 0xf) <<< 3) ||| (if rd.setWidth 64 &&& 0x10 ≠ 0 then 1#64 <<< 7 else 0) =
      place 64 3 rd := by
  revert rd
  decide

theorem pfilterCmp_eq (offset : BitVec 6) (value : BitVec 32) (mask : BitVec 16) (op : PfilterOp)
    (rd : BitVec 4) :
    pfilterCmp offset value mask op rd =
      place 64 7 offset ||| place 64 29 (nibblesOf mask) ||| place 64 0 op.code |||
        place 64 3 rd ||| place 64 13 (value.setWidth 16) := by
  have hvalue : value.setWidth 64 &&& 0xffff = (value.setWidth 16).setWidth 64 := by
    rw [show (0xffff : BitVec 64) = BitVec.ofNat 64 (2 ^ 16 - 1) from rfl, and_mask _ (by decide)]
    simp
  unfold pfilterCmp nibblesOf
  rw [hvalue, ite_place, ite_place, ite_place, ite_place, ← bits_place]
  simp only [pfModeCmp, place, BitVec.shiftLeft_zero, BitVec.zero_or, BitVec.or_assoc]

/-- The fields of a two- or three-operand instruction. -/
def logicFields (rd ra : Reg) (op : PfilterOp) (rb : Reg) (op2 : PfilterOp) (rc : Reg) :
    BitVec 64 :=
  place 64 8 ra ||| place 64 13 rb ||| place 64 18 rc ||| place 64 3 rd ||| place 64 0 op.code |||
    place 64 34 1#1 ||| place 64 23 op2.code

theorem pfilterLogic3_eq (rd ra : Reg) (op : PfilterOp) (rb : Reg) (op2 : PfilterOp) (rc : Reg) :
    pfilterLogic3 rd ra op rb op2 rc = logicFields rd ra op rb op2 rc := by
  unfold pfilterLogic3 logicFields
  rw [← rd_place]
  simp only [pfModeLogic, place, BitVec.shiftLeft_zero, BitVec.or_assoc]
  rfl

/-- Two operands are three, of which `MOV` keeps the first result. -/
theorem pfilterLogic2_eq (rd ra : Reg) (op : PfilterOp) (rb : Reg) :
    pfilterLogic2 rd ra op rb = logicFields rd ra op rb .mov 0 := by
  have hzero : place 64 18 (0 : Reg) = 0#64 := rfl
  unfold pfilterLogic2 logicFields
  rw [← rd_place, hzero, BitVec.or_zero]
  simp only [pfModeLogic, place, BitVec.shiftLeft_zero, BitVec.or_assoc]
  rfl

theorem pfilterNop_eq : pfilterNop = logicFields 0 0 .and 0 .and 0 := by decide

/-- The low 36 bits of a word, of which the machine extracts fields. -/
theorem extract_low {s m : Nat} (code : BitVec 64) (h : s + m ≤ 36) :
    (code.setWidth 36).extractLsb' s m = code.extractLsb' s m :=
  BitVec.extractLsb'_setWidth_of_le h

theorem decode_pfilterFin : decode (pfilterFin.setWidth 36) = .fin := by decide

/-- A comparison is decoded as it was written, with the value truncated to 16 bits. -/
theorem decode_pfilterCmp (offset : BitVec 6) (value : BitVec 32) (mask : BitVec 16)
    (op : PfilterOp) (rd : BitVec 4) :
    decode ((pfilterCmp offset value mask op rd).setWidth 36) =
      .cmp offset (value.setWidth 16) (nibblesOf mask) op rd := by
  unfold decode
  simp [pfilterCmp_eq, extract_low, BitVec.extractLsb'_or]

theorem decode_logicFields (rd ra : Reg) (op : PfilterOp) (rb : Reg) (op2 : PfilterOp)
    (rc : Reg) :
    decode ((logicFields rd ra op rb op2 rc).setWidth 36) = .logic rd ra op rb op2 rc := by
  unfold decode logicFields
  simp [extract_low, BitVec.extractLsb'_or]

end Decode

/-! ## The program in the memory -/

section Load

/-- A register write truncates its field and puts it in place. -/
theorem wbgen2GenWrite_eq {size : Nat} (value : BitVec 64) (offset : Nat) (h : size ≤ 64) :
    wbgen2GenWrite value offset size = place 64 offset (value.setWidth size) := by
  unfold wbgen2GenWrite place
  rw [and_mask value h]

theorem setWidth_shift (code : BitVec 64) : (code >>> 12).setWidth 24 = code.extractLsb' 12 24 := by
  ext i hi
  simp

theorem setWidth_low (code : BitVec 64) : (code &&& 0xfff).setWidth 12 = code.extractLsb' 0 12 := by
  rw [show (0xfff : BitVec 64) = BitVec.ofNat 64 (2 ^ 12 - 1) from rfl, and_mask _ (by decide)]
  ext i hi
  simp

/-- The two writes of a word store its low 36 bits at its address. -/
theorem write_loadWord (ep : Endpoint) (i : Nat) (code : BitVec 64) :
    ((loadWord i code).foldl Endpoint.write ep).memory =
      Function.update ep.memory (BitVec.ofNat 6 i) (code.setWidth 36) := by
  have hwrite : (1#64 <<< 6 : BitVec 64) = place 64 6 1#1 := rfl
  have haddr : (BitVec.ofNat 64 i).setWidth 6 = BitVec.ofNat 6 i := by
    apply BitVec.eq_of_toNat_eq
    simp only [BitVec.toNat_setWidth, BitVec.toNat_ofNat]
    omega
  have hword : code.extractLsb' 12 24 ++ code.extractLsb' 0 12 = code.setWidth 36 :=
    append_extract code
  simp only [loadWord, wbgen2GenWrite_eq _ _ (by decide : 12 ≤ 64),
    wbgen2GenWrite_eq _ _ (by decide : 6 ≤ 64), wbgen2GenWrite_eq _ _ (by decide : 24 ≤ 64), hwrite,
    setWidth_shift, setWidth_low, haddr, List.foldl_cons, List.foldl_nil, Endpoint.write]
  simp [BitVec.extractLsb'_setWidth_of_le, BitVec.extractLsb'_or, hword]

theorem ofNat_inj {i j : Nat} (hi : i < 64) (hj : j < 64)
    (h : BitVec.ofNat 6 i = BitVec.ofNat 6 j) : i = j := by
  have hnat := congrArg BitVec.toNat h
  simp only [BitVec.toNat_ofNat] at hnat
  omega

/-- Loading stores the words one after the other, and leaves the words before them alone. -/
theorem write_loadFrom (codes : List (BitVec 64)) (ep : Endpoint) {i : Nat}
    (hroom : i + codes.length ≤ 64) :
    (∀ j (hj : j < codes.length), ((loadFrom i codes).foldl Endpoint.write ep).memory
        (BitVec.ofNat 6 (i + j)) = (codes.get ⟨j, hj⟩).setWidth 36) ∧
      ∀ a, a < i → ((loadFrom i codes).foldl Endpoint.write ep).memory (BitVec.ofNat 6 a) =
        ep.memory (BitVec.ofNat 6 a) := by
  induction codes generalizing ep i with
  | nil => exact ⟨fun j hj => absurd hj (Nat.not_lt_zero j), fun _ _ => rfl⟩
  | cons code codes ih =>
      rw [List.length_cons] at hroom
      obtain ⟨hstored, hkept⟩ := ih ((loadWord i code).foldl Endpoint.write ep)
        (i := i + 1) (by omega)
      simp only [loadFrom, List.foldl_append]
      constructor
      · intro j hj
        cases j with
        | zero =>
            have hfirst := hkept i (by omega)
            rw [write_loadWord, Function.update_self] at hfirst
            exact hfirst
        | succ j =>
            have hword := hstored j (by simpa using hj)
            rw [show i + (j + 1) = i + 1 + j by ring, hword]
            rfl
      · intro a ha
        rw [hkept a (by omega), write_loadWord, Function.update_of_ne]
        intro heq
        have hsame := ofNat_inj (by omega) (by omega) heq
        omega

/-- Fetching stops at FIN. -/
theorem fetch_codes {memory : BitVec 6 → BitVec 36} (codes : List (BitVec 64)) {n pc : Nat}
    (hn : codes.length < n)
    (hmemory : ∀ j (hj : j < (codes ++ [pfilterFin]).length),
      memory (BitVec.ofNat 6 (pc + j)) = ((codes ++ [pfilterFin]).get ⟨j, hj⟩).setWidth 36)
    (hcodes : ∀ code ∈ codes, decode (code.setWidth 36) ≠ .fin) :
    fetch memory n pc = codes.map fun code => decode (code.setWidth 36) := by
  induction codes generalizing n pc with
  | nil =>
      obtain ⟨m, rfl⟩ : ∃ m, n = m + 1 := ⟨n - 1, by simp at hn; omega⟩
      have hfin := hmemory 0 (by simp)
      rw [Nat.add_zero] at hfin
      have hdecode : decode (memory (BitVec.ofNat 6 pc)) = .fin := by
        rw [hfin]
        exact decode_pfilterFin
      simp [fetch, hdecode]
  | cons code codes ih =>
      rw [List.length_cons] at hn
      obtain ⟨m, rfl⟩ : ∃ m, n = m + 1 := ⟨n - 1, by omega⟩
      have hword : memory (BitVec.ofNat 6 pc) = code.setWidth 36 := hmemory 0 (by simp)
      have hrest := @ih m (pc + 1) (by omega)
        (fun j hj => by
          have hnext := hmemory (j + 1) (by simpa using hj)
          rw [show pc + (j + 1) = pc + 1 + j by ring] at hnext
          exact hnext)
        (fun c hc => hcodes c (List.mem_cons_of_mem _ hc))
      have hhead := hcodes code (List.mem_cons_self ..)
      rw [List.map_cons, ← hrest, fetch, hword]
      split
      · next hfin => exact absurd hfin hhead
      · rfl

/-- The program in the memory is the one that was assembled. -/
theorem fetch_load (codes : List (BitVec 64)) (ep : Endpoint) (hroom : codes.length < 64)
    (hcodes : ∀ code ∈ codes, decode (code.setWidth 36) ≠ .fin) :
    fetch ((pfilterLoad codes).foldl Endpoint.write ep).memory 64 0 =
      codes.map fun code => decode (code.setWidth 36) := by
  apply fetch_codes codes hroom _ hcodes
  intro j hj
  obtain ⟨hstored, -⟩ := write_loadFrom (codes ++ [pfilterFin]) (ep.write (.pfcr0 0)) (i := 0)
    (by simp; omega)
  have hword := hstored j hj
  -- the last write of the load stores nothing
  have henable : ∀ e : Endpoint, e.write (.pfcr0 (1#32 <<< 7)) = e := fun e => by
    have hbit : (1#32 <<< 7).extractLsb' 6 1 ≠ 1 := by decide
    simp only [Endpoint.write, hbit, if_false]
  simp only [pfilterLoad, List.cons_append, List.foldl_cons, List.foldl_append, List.foldl_nil,
    henable]
  exact hword

/-- On a packet that has all the words that are compared, the program does not fail. -/
theorem runProgram_eq {packet : List UInt8} {n : Nat} (hlen : 2 * n ≤ packet.length)
    (instrs : List Instr) (hreads : instrs.all (Instr.readsBelow n) = true) (r : Regs) :
    runProgram packet r instrs = some (instrs.foldl (Instr.exec (wordAt packet)) r) := by
  induction instrs generalizing r with
  | nil => rfl
  | cons instr instrs ih =>
      rw [List.all_cons, Bool.and_eq_true] at hreads
      obtain ⟨hhead, htail⟩ := hreads
      have hbelow : instr.readsBelow (packet.length / 2) = true := by
        cases instr with
        | cmp offset value nibbles op rd =>
            simp only [Instr.readsBelow, decide_eq_true_eq] at hhead ⊢
            omega
        | logic => rfl
        | fin => rfl
      rw [runProgram, if_pos hbelow, ih htail]
      rfl

end Load

end Pfilter
end WrpcSw
