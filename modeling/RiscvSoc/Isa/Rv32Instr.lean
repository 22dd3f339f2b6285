/- GID: RiscvSoc/Isa/Rv32Instr
   generality: G
   utility: library
   digest: The instructions of RV32I with the multiplications of M and with Zicsr: decoding of words
   and what one instruction does to a hart. -/

import RiscvSoc.Isa.Rv32Alu
import RiscvSoc.Memory.ByteMemory

set_option autoImplicit false
set_option relaxedAutoImplicit false

namespace RiscvSoc.Isa.Rv32Instr

open RiscvSoc.Isa.Rv32Alu
open RiscvSoc.Memory.ByteMemory

section Syntax

inductive RegOp where
  | add | sub | sll | slt | sltu | xor | srl | sra | or | and | mul | mulh | mulhsu | mulhu
  deriving DecidableEq

inductive ImmOp where
  | addi | slti | sltiu | xori | ori | andi
  deriving DecidableEq

inductive ShiftOp where
  | slli | srli | srai
  deriving DecidableEq

inductive BranchOp where
  | beq | bne | blt | bge | bltu | bgeu
  deriving DecidableEq

inductive CsrOp where
  | rw | rs | rc
  deriving DecidableEq

/-- Where a CSR instruction takes its operand from. -/
inductive CsrSource where
  | reg (rs1 : BitVec 5)
  | imm (zimm : BitVec 5)
  deriving DecidableEq

/-- An instruction with its operands. Branch and jump offsets are counted in halfwords. -/
inductive Instr where
  | lui (rd : BitVec 5) (imm : BitVec 20)
  | auipc (rd : BitVec 5) (imm : BitVec 20)
  | jal (rd : BitVec 5) (offset : BitVec 20)
  | jalr (rd rs1 : BitVec 5) (imm : BitVec 12)
  | branch (op : BranchOp) (rs1 rs2 : BitVec 5) (offset : BitVec 12)
  | load (op : LoadOp) (rd rs1 : BitVec 5) (imm : BitVec 12)
  | store (op : StoreOp) (rs1 rs2 : BitVec 5) (imm : BitVec 12)
  | imm (op : ImmOp) (rd rs1 : BitVec 5) (imm : BitVec 12)
  | shift (op : ShiftOp) (rd rs1 shamt : BitVec 5)
  | reg (op : RegOp) (rd rs1 rs2 : BitVec 5)
  | csr (op : CsrOp) (rd : BitVec 5) (src : CsrSource) (addr : BitVec 12)
  deriving DecidableEq

end Syntax

section Fields

def opcode (w : BitVec 32) : BitVec 7 := w.extractLsb' 0 7
def rd (w : BitVec 32) : BitVec 5 := w.extractLsb' 7 5
def funct3 (w : BitVec 32) : BitVec 3 := w.extractLsb' 12 3
def rs1 (w : BitVec 32) : BitVec 5 := w.extractLsb' 15 5
def rs2 (w : BitVec 32) : BitVec 5 := w.extractLsb' 20 5
def funct7 (w : BitVec 32) : BitVec 7 := w.extractLsb' 25 7

/-- The immediates as the formats spread them, without the bit 0 of an offset. -/
def immI (w : BitVec 32) : BitVec 12 := w.extractLsb' 20 12
def immS (w : BitVec 32) : BitVec 12 := w.extractLsb' 25 7 ++ w.extractLsb' 7 5
def immU (w : BitVec 32) : BitVec 20 := w.extractLsb' 12 20
def offsetB (w : BitVec 32) : BitVec 12 :=
  w.extractLsb' 31 1 ++ w.extractLsb' 7 1 ++ w.extractLsb' 25 6 ++ w.extractLsb' 8 4
def offsetJ (w : BitVec 32) : BitVec 20 :=
  w.extractLsb' 31 1 ++ w.extractLsb' 12 8 ++ w.extractLsb' 20 1 ++ w.extractLsb' 25 6 ++
    w.extractLsb' 21 4

def opJal : BitVec 7 := 0b1101111
def opJalr : BitVec 7 := 0b1100111
def opBranch : BitVec 7 := 0b1100011
def opLoad : BitVec 7 := 0b0000011
def opStore : BitVec 7 := 0b0100011
def opSystem : BitVec 7 := 0b1110011

def BranchOp.funct3 : BranchOp → BitVec 3
  | .beq => 0b000
  | .bne => 0b001
  | .blt => 0b100
  | .bge => 0b101
  | .bltu => 0b110
  | .bgeu => 0b111

def loadFunct3 : LoadOp → BitVec 3
  | .lb => 0b000
  | .lh => 0b001
  | .lw => 0b010
  | .lbu => 0b100
  | .lhu => 0b101

def storeFunct3 : StoreOp → BitVec 3
  | .sb => 0b000
  | .sh => 0b001
  | .sw => 0b010

def CsrOp.funct2 : CsrOp → BitVec 2
  | .rw => 0b01
  | .rs => 0b10
  | .rc => 0b11

/-- The operations under their mnemonics. -/
def RegOp.mnemonic : RegOp → Mnemonic
  | .add => .add
  | .sub => .sub
  | .sll => .sll
  | .slt => .slt
  | .sltu => .sltu
  | .xor => .xor
  | .srl => .srl
  | .sra => .sra
  | .or => .or
  | .and => .and
  | .mul => .mul
  | .mulh => .mulh
  | .mulhsu => .mulhsu
  | .mulhu => .mulhu

def ImmOp.mnemonic : ImmOp → Mnemonic
  | .addi => .addi
  | .slti => .slti
  | .sltiu => .sltiu
  | .xori => .xori
  | .ori => .ori
  | .andi => .andi

def ShiftOp.mnemonic : ShiftOp → Mnemonic
  | .slli => .slli
  | .srli => .srli
  | .srai => .srai

end Fields

section Decode

/-- The first of a list of operations whose fixed field is `k`. -/
def byField {α κ : Type} [DecidableEq κ] (field : α → κ) (k : κ) (ops : List α) : Option α :=
  ops.find? fun a => decide (field a = k)

private theorem field_of_byField {α κ : Type} [DecidableEq κ] {field : α → κ} {k : κ} {ops : List α}
    {a : α}
    (found : byField field k ops = some a) : field a = k :=
  of_decide_eq_true (List.find?_some (p := fun a => decide (field a = k)) found)

def branchOps : List BranchOp := [.beq, .bne, .blt, .bge, .bltu, .bgeu]
def loadOps : List LoadOp := [.lb, .lh, .lw, .lbu, .lhu]
def storeOps : List StoreOp := [.sb, .sh, .sw]
def csrOps : List CsrOp := [.rw, .rs, .rc]
def immOps : List ImmOp := [.addi, .slti, .sltiu, .xori, .ori, .andi]
def shiftOps : List ShiftOp := [.slli, .srli, .srai]
def regOps : List RegOp :=
  [.add, .sub, .sll, .slt, .sltu, .xor, .srl, .sra, .or, .and, .mul, .mulh, .mulhsu, .mulhu]

/-- The operand of a CSR instruction is the register or, with the upper bit of funct3 set, the
field itself. -/
def csrSource (w : BitVec 32) : CsrSource :=
  if (funct3 w).getLsbD 2 then .imm (rs1 w) else .reg (rs1 w)

def fixedFields (m : Mnemonic) : Option (BitVec 3) × Option (BitVec 7) :=
  (m.encoding.funct3, m.encoding.funct7)

/-- The operations of OP-IMM that take a 12-bit immediate, then the shifts. -/
def decodeOpImm (w : BitVec 32) : Option Instr :=
  match byField (fun op => op.mnemonic.encoding.funct3) (some (funct3 w)) immOps with
  | some op => some (.imm op (rd w) (rs1 w) (immI w))
  | none =>
    (byField (fun op => fixedFields op.mnemonic) (some (funct3 w), some (funct7 w)) shiftOps).map
      fun op => .shift op (rd w) (rs1 w) (rs2 w)

def decode (w : BitVec 32) : Option Instr :=
  if opcode w = opLui then some (.lui (rd w) (immU w))
  else if opcode w = opAuipc then some (.auipc (rd w) (immU w))
  else if opcode w = opJal then some (.jal (rd w) (offsetJ w))
  else if opcode w = opJalr then
    if funct3 w = 0 then some (.jalr (rd w) (rs1 w) (immI w)) else none
  else if opcode w = opBranch then
    (byField BranchOp.funct3 (funct3 w) branchOps).map fun op =>
      .branch op (rs1 w) (rs2 w) (offsetB w)
  else if opcode w = opLoad then
    (byField loadFunct3 (funct3 w) loadOps).map fun op => .load op (rd w) (rs1 w) (immI w)
  else if opcode w = opStore then
    (byField storeFunct3 (funct3 w) storeOps).map fun op => .store op (rs1 w) (rs2 w) (immS w)
  else if opcode w = opImm then decodeOpImm w
  else if opcode w = opReg then
    (byField (fun op => fixedFields op.mnemonic) (some (funct3 w), some (funct7 w)) regOps).map
      fun op => .reg op (rd w) (rs1 w) (rs2 w)
  else if opcode w = opSystem then
    (byField CsrOp.funct2 ((funct3 w).extractLsb' 0 2) csrOps).map fun op =>
      .csr op (rd w) (csrSource w) (immI w)
  else none

/-- The words of an instruction, format by format. -/
inductive Encoding (w : BitVec 32) : Instr → Prop where
  | lui : opcode w = opLui → Encoding w (.lui (rd w) (immU w))
  | auipc : opcode w = opAuipc → Encoding w (.auipc (rd w) (immU w))
  | jal : opcode w = opJal → Encoding w (.jal (rd w) (offsetJ w))
  | jalr : opcode w = opJalr → funct3 w = 0 → Encoding w (.jalr (rd w) (rs1 w) (immI w))
  | branch (op : BranchOp) : opcode w = opBranch → funct3 w = op.funct3 →
      Encoding w (.branch op (rs1 w) (rs2 w) (offsetB w))
  | load (op : LoadOp) : opcode w = opLoad → funct3 w = loadFunct3 op →
      Encoding w (.load op (rd w) (rs1 w) (immI w))
  | store (op : StoreOp) : opcode w = opStore → funct3 w = storeFunct3 op →
      Encoding w (.store op (rs1 w) (rs2 w) (immS w))
  | imm (op : ImmOp) : Encodes op.mnemonic w → Encoding w (.imm op (rd w) (rs1 w) (immI w))
  | shift (op : ShiftOp) : Encodes op.mnemonic w → Encoding w (.shift op (rd w) (rs1 w) (rs2 w))
  | reg (op : RegOp) : Encodes op.mnemonic w → Encoding w (.reg op (rd w) (rs1 w) (rs2 w))
  | csr (op : CsrOp) : opcode w = opSystem → (funct3 w).extractLsb' 0 2 = op.funct2 →
      Encoding w (.csr op (rd w) (csrSource w) (immI w))

private theorem encodes_of_fields {m : Mnemonic} {w : BitVec 32} (op : opcode w = m.encoding.opcode)
    (fields : fixedFields m = (some (funct3 w), some (funct7 w))) : Encodes m w := by
  have f3 : m.encoding.funct3 = some (funct3 w) := congrArg Prod.fst fields
  have f7 : m.encoding.funct7 = some (funct7 w) := congrArg Prod.snd fields
  refine ⟨op, ?_, ?_⟩
  · intro f fixed
    rw [f3] at fixed
    exact Option.mem_some_iff.mp fixed
  · intro f fixed
    rw [f7] at fixed
    exact Option.mem_some_iff.mp fixed

private theorem encoding_of_decodeOpImm {w : BitVec 32} {i : Instr} (op : opcode w = opImm)
    (decoded : decodeOpImm w = some i) : Encoding w i := by
  unfold decodeOpImm at decoded
  split at decoded
  · rename_i o found
    obtain rfl := Option.some_inj.mp decoded
    have field := field_of_byField found
    refine .imm o ⟨?_, ?_, ?_⟩
    · cases o <;> exact op
    · intro f fixed
      rw [field] at fixed
      exact Option.mem_some_iff.mp fixed
    · cases o <;> exact fun _ none => absurd none (by simp [ImmOp.mnemonic, Mnemonic.encoding])
  · obtain ⟨o, found, rfl⟩ := Option.map_eq_some_iff.mp decoded
    exact .shift o (encodes_of_fields (by cases o <;> exact op)
      (@field_of_byField _ _ _ (fun o : ShiftOp => fixedFields o.mnemonic) _ _ _ found))

/-- A word that decodes is a word of its instruction. -/
theorem encoding_of_decode {w : BitVec 32} {i : Instr} (decoded : decode w = some i) :
    Encoding w i := by
  unfold decode at decoded
  rcases ite_eq_iff.mp decoded with ⟨op, hit⟩ | ⟨-, decoded⟩
  · obtain rfl := Option.some_inj.mp hit
    exact .lui op
  rcases ite_eq_iff.mp decoded with ⟨op, hit⟩ | ⟨-, decoded⟩
  · obtain rfl := Option.some_inj.mp hit
    exact .auipc op
  rcases ite_eq_iff.mp decoded with ⟨op, hit⟩ | ⟨-, decoded⟩
  · obtain rfl := Option.some_inj.mp hit
    exact .jal op
  rcases ite_eq_iff.mp decoded with ⟨op, hit⟩ | ⟨-, decoded⟩
  · obtain ⟨zero, same⟩ := Option.ite_none_right_eq_some.mp hit
    obtain rfl := Option.some_inj.mp same
    exact .jalr op zero
  rcases ite_eq_iff.mp decoded with ⟨op, hit⟩ | ⟨-, decoded⟩
  · obtain ⟨o, found, rfl⟩ := Option.map_eq_some_iff.mp hit
    exact .branch o op (field_of_byField found).symm
  rcases ite_eq_iff.mp decoded with ⟨op, hit⟩ | ⟨-, decoded⟩
  · obtain ⟨o, found, rfl⟩ := Option.map_eq_some_iff.mp hit
    exact .load o op (field_of_byField found).symm
  rcases ite_eq_iff.mp decoded with ⟨op, hit⟩ | ⟨-, decoded⟩
  · obtain ⟨o, found, rfl⟩ := Option.map_eq_some_iff.mp hit
    exact .store o op (field_of_byField found).symm
  rcases ite_eq_iff.mp decoded with ⟨op, hit⟩ | ⟨-, decoded⟩
  · exact encoding_of_decodeOpImm op hit
  rcases ite_eq_iff.mp decoded with ⟨op, hit⟩ | ⟨-, decoded⟩
  · obtain ⟨o, found, rfl⟩ := Option.map_eq_some_iff.mp hit
    exact .reg o (encodes_of_fields (by cases o <;> exact op)
      (@field_of_byField _ _ _ (fun o : RegOp => fixedFields o.mnemonic) _ _ _ found))
  obtain ⟨op, system⟩ := Option.ite_none_right_eq_some.mp decoded
  obtain ⟨o, found, rfl⟩ := Option.map_eq_some_iff.mp system
  exact .csr o op (field_of_byField found).symm

end Decode

section Values

/-- The operation behind an immediate or a shift. -/
def ImmOp.reg : ImmOp → RegOp
  | .addi => .add
  | .slti => .slt
  | .sltiu => .sltu
  | .xori => .xor
  | .ori => .or
  | .andi => .and

def ShiftOp.reg : ShiftOp → RegOp
  | .slli => .sll
  | .srli => .srl
  | .srai => .sra

/-- The value of a register operation depends on its operands alone. -/
def RegOp.value (op : RegOp) (a b : BitVec 32) : BitVec 32 := op.mnemonic.value 0 0 a b

def BranchOp.taken (op : BranchOp) (a b : BitVec 32) : Bool :=
  match op with
  | .beq => decide (a = b)
  | .bne => decide (a ≠ b)
  | .blt => decide (a.toInt < b.toInt)
  | .bge => decide (b.toInt ≤ a.toInt)
  | .bltu => decide (a.toNat < b.toNat)
  | .bgeu => decide (b.toNat ≤ a.toNat)

/-- Setting or clearing no bits by x0 or by a zero immediate makes no write. -/
def CsrOp.writes (op : CsrOp) (src : CsrSource) : Bool :=
  match op, src with
  | .rw, _ => true
  | _, .reg rs1 => decide (rs1 ≠ 0)
  | _, .imm zimm => decide (zimm ≠ 0)

def CsrOp.value (op : CsrOp) (old operand : BitVec 32) : BitVec 32 :=
  match op with
  | .rw => operand
  | .rs => old ||| operand
  | .rc => old &&& ~~~operand

end Values

end RiscvSoc.Isa.Rv32Instr
