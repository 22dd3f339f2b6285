/- GID: RiscvSoc/Isa/Rv32Alu
   generality: G
   utility: library
   digest: The register-register, register-immediate, upper-immediate and multiply instructions of
   RV32IM: encodings and values. -/

import Mathlib.Algebra.Group.Int.Defs
import Mathlib.Algebra.Group.Nat.Defs
import Mathlib.Tactic.SplitIfs

set_option autoImplicit false
set_option relaxedAutoImplicit false

namespace RiscvSoc.Isa.Rv32Alu

inductive Mnemonic where
  | lui
  | auipc
  | addi
  | slti
  | sltiu
  | xori
  | ori
  | andi
  | slli
  | srli
  | srai
  | add
  | sub
  | sll
  | slt
  | sltu
  | xor
  | srl
  | sra
  | or
  | and
  | mul
  | mulh
  | mulhsu
  | mulhu
  deriving DecidableEq

/-- The fixed fields of an instruction format. -/
structure Encoding where
  opcode : BitVec 7
  funct3 : Option (BitVec 3) := none
  funct7 : Option (BitVec 7) := none

def opLui : BitVec 7 := 0b0110111
def opAuipc : BitVec 7 := 0b0010111
def opImm : BitVec 7 := 0b0010011
def opReg : BitVec 7 := 0b0110011

def Mnemonic.encoding : Mnemonic → Encoding
  | .lui => { opcode := opLui }
  | .auipc => { opcode := opAuipc }
  | .addi => { opcode := opImm, funct3 := some 0b000 }
  | .slti => { opcode := opImm, funct3 := some 0b010 }
  | .sltiu => { opcode := opImm, funct3 := some 0b011 }
  | .xori => { opcode := opImm, funct3 := some 0b100 }
  | .ori => { opcode := opImm, funct3 := some 0b110 }
  | .andi => { opcode := opImm, funct3 := some 0b111 }
  | .slli => { opcode := opImm, funct3 := some 0b001, funct7 := some 0b0000000 }
  | .srli => { opcode := opImm, funct3 := some 0b101, funct7 := some 0b0000000 }
  | .srai => { opcode := opImm, funct3 := some 0b101, funct7 := some 0b0100000 }
  | .add => { opcode := opReg, funct3 := some 0b000, funct7 := some 0b0000000 }
  | .sub => { opcode := opReg, funct3 := some 0b000, funct7 := some 0b0100000 }
  | .sll => { opcode := opReg, funct3 := some 0b001, funct7 := some 0b0000000 }
  | .slt => { opcode := opReg, funct3 := some 0b010, funct7 := some 0b0000000 }
  | .sltu => { opcode := opReg, funct3 := some 0b011, funct7 := some 0b0000000 }
  | .xor => { opcode := opReg, funct3 := some 0b100, funct7 := some 0b0000000 }
  | .srl => { opcode := opReg, funct3 := some 0b101, funct7 := some 0b0000000 }
  | .sra => { opcode := opReg, funct3 := some 0b101, funct7 := some 0b0100000 }
  | .or => { opcode := opReg, funct3 := some 0b110, funct7 := some 0b0000000 }
  | .and => { opcode := opReg, funct3 := some 0b111, funct7 := some 0b0000000 }
  | .mul => { opcode := opReg, funct3 := some 0b000, funct7 := some 0b0000001 }
  | .mulh => { opcode := opReg, funct3 := some 0b001, funct7 := some 0b0000001 }
  | .mulhsu => { opcode := opReg, funct3 := some 0b010, funct7 := some 0b0000001 }
  | .mulhu => { opcode := opReg, funct3 := some 0b011, funct7 := some 0b0000001 }

/-- `w` is a legal encoding of the instruction. -/
structure Encodes (m : Mnemonic) (w : BitVec 32) : Prop where
  opcode : w.extractLsb' 0 7 = m.encoding.opcode
  funct3 : ∀ f ∈ m.encoding.funct3, w.extractLsb' 12 3 = f
  funct7 : ∀ f ∈ m.encoding.funct7, w.extractLsb' 25 7 = f

/-- The immediates: sign-extended `[31:20]`, the upper 20 bits, and the shift amount. -/
def iImm (w : BitVec 32) : BitVec 32 := (w.extractLsb' 20 12).signExtend 32
def uImm (w : BitVec 32) : BitVec 32 := w.extractLsb' 12 20 ++ 0#12
def shamt (w : BitVec 32) : ℕ := (w.extractLsb' 20 5).toNat

def flag (p : Bool) : BitVec 32 := if p then 1 else 0

/-- What the instruction `w` at `pc` writes to rd, with `a` in rs1 and `b` in rs2. -/
def Mnemonic.value (m : Mnemonic) (w pc a b : BitVec 32) : BitVec 32 :=
  match m with
  | .lui => uImm w
  | .auipc => pc + uImm w
  | .addi => a + iImm w
  | .slti => flag (decide (a.toInt < (iImm w).toInt))
  | .sltiu => flag (decide (a.toNat < (iImm w).toNat))
  | .xori => a ^^^ iImm w
  | .ori => a ||| iImm w
  | .andi => a &&& iImm w
  | .slli => a <<< shamt w
  | .srli => a >>> shamt w
  | .srai => a.sshiftRight (shamt w)
  | .add => a + b
  | .sub => a - b
  | .sll => a <<< (b.toNat % 32)
  | .slt => flag (decide (a.toInt < b.toInt))
  | .sltu => flag (decide (a.toNat < b.toNat))
  | .xor => a ^^^ b
  | .srl => a >>> (b.toNat % 32)
  | .sra => a.sshiftRight (b.toNat % 32)
  | .or => a ||| b
  | .and => a &&& b
  | .mul => BitVec.ofInt 32 (a.toInt * b.toInt)
  | .mulh => BitVec.ofInt 32 (a.toInt * b.toInt / 2 ^ 32)
  | .mulhsu => BitVec.ofInt 32 (a.toInt * b.toNat / 2 ^ 32)
  | .mulhu => BitVec.ofNat 32 (a.toNat * b.toNat / 2 ^ 32)

section Windows

/-- A 32-bit window of a 64-bit integer. -/
theorem low_ofInt (z : ℤ) : (BitVec.ofInt 64 z).extractLsb' 0 32 = BitVec.ofInt 32 z := by
  apply BitVec.eq_of_toNat_eq
  simp only [BitVec.extractLsb'_toNat, BitVec.toNat_ofInt, Nat.shiftRight_zero]
  omega

theorem high_ofInt (z : ℤ) :
    (BitVec.ofInt 64 z).extractLsb' 32 32 = BitVec.ofInt 32 (z / 2 ^ 32) := by
  apply BitVec.eq_of_toNat_eq
  simp only [BitVec.extractLsb'_toNat, BitVec.toNat_ofInt, Nat.shiftRight_eq_div_pow]
  omega

/-- Sign extension to 64 bits keeps the integer. -/
theorem signExtend_mul {m n : ℕ} (a : BitVec m) (b : BitVec n) :
    a.signExtend 64 * b.signExtend 64 = BitVec.ofInt 64 (a.toInt * b.toInt) := by
  rw [BitVec.ofInt_mul]
  rfl

theorem toInt_setWidth_succ (b : BitVec 32) : (b.setWidth 33).toInt = b.toNat := by
  have small := b.isLt
  rw [BitVec.toInt_setWidth]
  exact Int.bmod_eq_of_le (by omega) (by omega)

theorem high_ofNat (n : ℕ) :
    (BitVec.ofNat 64 n).extractLsb' 32 32 = BitVec.ofNat 32 (n / 2 ^ 32) := by
  apply BitVec.eq_of_toNat_eq
  simp only [BitVec.extractLsb'_toNat, BitVec.toNat_ofNat, Nat.shiftRight_eq_div_pow]
  omega

theorem setWidth_mul (a b : BitVec 32) :
    a.setWidth 64 * b.setWidth 64 = BitVec.ofNat 64 (a.toNat * b.toNat) := by
  apply BitVec.eq_of_toNat_eq
  simp only [BitVec.toNat_mul, BitVec.toNat_setWidth, BitVec.toNat_ofNat, Nat.mod_mul_mod,
    Nat.mul_mod_mod]

/-- An arithmetic shift is a window of the sign extension. -/
theorem window_signExtend (a : BitVec 32) {n : ℕ} (small : n < 32) :
    ((a.signExtend 64) >>> n).extractLsb' 0 32 = a.sshiftRight n := by
  ext i hi
  simp only [BitVec.getElem_extractLsb', BitVec.getLsbD_ushiftRight, BitVec.getLsbD_signExtend,
    BitVec.getElem_sshiftRight, Nat.zero_add, show n + i < 64 by omega, decide_true,
    Bool.true_and]
  split_ifs with inside
  · exact BitVec.getLsbD_eq_getElem inside
  · rfl

end Windows

end RiscvSoc.Isa.Rv32Alu
