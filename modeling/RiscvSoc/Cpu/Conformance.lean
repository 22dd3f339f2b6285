/- GID: RiscvSoc/Cpu/Conformance
   generality: G
   utility: main
   digest: Decode and execute of both cores against the encodings and values of RV32IM. -/

import RiscvSoc.Cpu.DecoderFacts
import RiscvSoc.Cpu.Pipeline
import RiscvSoc.Cpu.SingleCycle
import RiscvSoc.Isa.Rv32Alu

set_option autoImplicit false
set_option relaxedAutoImplicit false

namespace RiscvSoc.Cpu.Conformance

open RiscvSoc.Cpu.Decoder
open RiscvSoc.Cpu.DecoderFacts
open RiscvSoc.Cpu.Datapath
open RiscvSoc.Cpu.Pipeline
open RiscvSoc.Cpu.SingleCycle
open RiscvSoc.Isa.Rv32Alu

section Decode

/-- The flag the decoder has for an instruction. -/
def opFlagOf : Mnemonic → OpFlags
  | .lui => { isLui := true }
  | .auipc => { isAuipc := true }
  | .addi => { isAddi := true }
  | .slti => { isSlti := true }
  | .sltiu => { isSltiu := true }
  | .xori => { isXori := true }
  | .ori => { isOri := true }
  | .andi => { isAndi := true }
  | .slli => { isSlli := true }
  | .srli => { isSrli := true }
  | .srai => { isSrai := true }
  | .add => { isAdd := true }
  | .sub => { isSub := true }
  | .sll => { isSll := true }
  | .slt => { isSlt := true }
  | .sltu => { isSltu := true }
  | .xor => { isXor := true }
  | .srl => { isSrl := true }
  | .sra => { isSra := true }
  | .or => { isOr := true }
  | .and => { isAnd := true }
  | .mul => { isMul := true }
  | .mulh => { isMulh := true }
  | .mulhsu => { isMulhsu := true }
  | .mulhu => { isMulhu := true }

/-- Every operation flag of the decoder. -/
def operationFlags (instr : Word) : List Bool :=
  let f := opFlags instr
  let c := csrFlags instr
  [f.isLui, f.isAuipc, f.isJal, f.isJalr, f.isBeq, f.isBne, f.isBlt, f.isBge, f.isBltu, f.isBgeu,
    f.isAddi, f.isSlti, f.isSltiu, f.isXori, f.isOri, f.isAndi, f.isSlli, f.isSrli, f.isSrai,
    f.isAdd, f.isSub, f.isSll, f.isSlt, f.isSltu, f.isXor, f.isSrl, f.isSra, f.isOr, f.isAnd,
    f.isMul, f.isMulh, f.isMulhsu, f.isMulhu, f.isLb, f.isLh, f.isLw, f.isLbu, f.isLhu,
    f.isSb, f.isSh, f.isSw, c.isCsrrw, c.isCsrrs, c.isCsrrc, c.isCsrrwi, c.isCsrrsi, c.isCsrrci,
    isEcall instr, isEbreak instr, isMret instr]

variable {m : Mnemonic} {instr : Word}

private theorem decBitsCase_encoding (m : Mnemonic) : ∀ (b25 b30 : Bool) (f3 : BitVec 3),
    m.encoding.funct3.all (· == f3) = true →
    m.encoding.funct7.all (fun f => f.getLsbD 0 == b25 && f.getLsbD 5 == b30) = true →
    decBitsCase b25 b30 f3 m.encoding.opcode = { op := opFlagOf m } := by
  cases m <;> decide

theorem decFlags_encodes (legal : Encodes m instr) : decFlags instr = { op := opFlagOf m } := by
  have op : opcode instr = m.encoding.opcode := legal.opcode
  rw [decFlags, op]
  refine decBitsCase_encoding m _ _ _ ?_ ?_
  · rw [Option.all_eq_true]
    intro f fixed
    exact beq_iff_eq.mpr (legal.funct3 f fixed).symm
  · rw [Option.all_eq_true]
    intro f fixed
    rw [← legal.funct7 f fixed]
    simp

theorem priv_encodes (legal : Encodes m instr) :
    isEcall instr = false ∧ isEbreak instr = false ∧ isMret instr = false := by
  have op : opcode instr = m.encoding.opcode := legal.opcode
  have other : (m.encoding.opcode == 0b1110011) = false := by cases m <;> rfl
  simp only [isEcall, isEbreak, isMret, op, other, Bool.false_and, and_self]

private theorem count_operationFlags (legal : Encodes m instr) :
    (operationFlags instr).count true = 1 := by
  obtain ⟨ecall, ebreak, mret⟩ := priv_encodes legal
  simp only [operationFlags, opFlags, csrFlags, decFlags_encodes legal, ecall, ebreak, mret]
  cases m <;> rfl

end Decode

section Execute

variable {m : Mnemonic} {instr : Word}

private theorem sltuRslt_eq (a b : Word) : sltuRslt a b = flag (decide (a.toNat < b.toNat)) := by
  simp [sltuRslt, flag, BitVec.lt_def]

private theorem sltRslt_eq (a b : Word) : sltRslt a b = flag (decide (a.toInt < b.toInt)) := by
  rw [← BitVec.slt_eq_decide, BitVec.slt_eq_ult, sltRslt]
  by_cases same : a.msb = b.msb
  · rw [if_pos same, sltuRslt_eq, same, bne_self_eq_false, Bool.false_xor]
    rfl
  · rw [if_neg same, bne_iff_ne.mpr same, BitVec.ult_eq_msb_of_msb_neq same]
    cases ha : a.msb <;> cases hb : b.msb <;> simp_all [flag]

theorem format_encodes (legal : Encodes m instr) :
    format instr = decoderLogic (m.encoding.opcode.extractLsb' 2 5) := by
  rw [format_opcode]
  exact congrArg (fun op : BitVec 7 => decoderLogic (op.extractLsb' 2 5)) legal.opcode

private theorem imm_opImm (legal : Encodes m instr) (op : m.encoding.opcode = opImm) :
    imm instr = iImm instr := by
  rw [imm, format_encodes legal, op]
  rfl

private theorem imm_upper (legal : Encodes m instr)
    (op : m.encoding.opcode = opLui ∨ m.encoding.opcode = opAuipc) : imm instr = uImm instr := by
  rw [imm, format_encodes legal]
  rcases op with op | op <;> rw [op] <;> rfl

private theorem upper_uImm (w : Word) : (uImm w).extractLsb' 12 20 ++ 0#12 = uImm w := by
  have upper : (uImm w).extractLsb' 12 20 = w.extractLsb' 12 20 := by
    apply BitVec.eq_of_getLsbD_eq
    intro i hi
    simp only [uImm, BitVec.getLsbD_extractLsb', BitVec.getLsbD_append, hi,
      show ¬ 12 + i < 12 by omega, if_false, show 12 + i - 12 = i by omega, decide_true,
      Bool.true_and]
  rw [upper, uImm]

private theorem getLsbD_iImm (w : Word) {k : ℕ} (small : k < 12) :
    (iImm w).getLsbD k = w.getLsbD (20 + k) := by
  simp only [iImm, BitVec.getLsbD_signExtend, BitVec.getLsbD_extractLsb', small, if_true,
    show k < 32 by omega, decide_true, Bool.true_and]

private theorem shamt_low (w : Word) : ((iImm w).extractLsb' 0 5).toNat = shamt w := by
  have low : (iImm w).extractLsb' 0 5 = w.extractLsb' 20 5 := by
    apply BitVec.eq_of_getLsbD_eq
    intro i hi
    rw [BitVec.getLsbD_extractLsb', BitVec.getLsbD_extractLsb', Nat.zero_add,
      getLsbD_iImm w (by omega)]
  rw [low, shamt]

/-- The left and the logical right shift read six bits of the immediate, the last of which a
legal encoding has clear. -/
private theorem shamt_six {w : Word} (clear : w.extractLsb' 25 7 = 0) :
    ((iImm w).extractLsb' 0 6).toNat = shamt w := by
  have bit : w.getLsbD 25 = false := by
    have first := congrArg (fun f : BitVec 7 => f.getLsbD 0) clear
    simpa using first
  have six : (iImm w).extractLsb' 0 6 = (w.extractLsb' 20 5).setWidth 6 := by
    apply BitVec.eq_of_getLsbD_eq
    intro i hi
    rw [BitVec.getLsbD_extractLsb', BitVec.getLsbD_setWidth, BitVec.getLsbD_extractLsb',
      Nat.zero_add, getLsbD_iImm w (by omega)]
    rcases Nat.lt_or_ge i 5 with low | last
    · simp only [low, decide_true, Bool.true_and]
    · obtain rfl : i = 5 := by omega
      rw [bit]
      rfl
  rw [six, BitVec.toNat_setWidth, shamt]
  exact Nat.mod_eq_of_lt (Nat.lt_trans (w.extractLsb' 20 5).isLt (by decide))

private theorem low_five (b : Word) : (b.extractLsb' 0 5).toNat = b.toNat % 32 := by
  rw [BitVec.extractLsb'_toNat, Nat.shiftRight_zero]

private theorem aluResult_value (legal : Encodes m instr) (a b pc : Word) :
    aluResult (opFlagOf m) false false a b (imm instr) pc = m.value instr pc a b := by
  cases m with
  | lui =>
    rw [imm_upper legal (.inl rfl)]
    exact upper_uImm instr
  | auipc =>
    rw [imm_upper legal (.inr rfl)]
    rfl
  | addi | xori | ori | andi =>
    rw [imm_opImm legal rfl]
    rfl
  | slti =>
    rw [imm_opImm legal rfl]
    exact sltRslt_eq a _
  | sltiu =>
    rw [imm_opImm legal rfl]
    exact sltuRslt_eq a _
  | slli =>
    rw [imm_opImm legal rfl]
    change a <<< ((iImm instr).extractLsb' 0 6).toNat = a <<< shamt instr
    rw [shamt_six (legal.funct7 _ rfl)]
  | srli =>
    rw [imm_opImm legal rfl]
    change a >>> ((iImm instr).extractLsb' 0 6).toNat = a >>> shamt instr
    rw [shamt_six (legal.funct7 _ rfl)]
  | srai =>
    rw [imm_opImm legal rfl]
    change sraRslt a ((iImm instr).extractLsb' 0 5) = a.sshiftRight (shamt instr)
    rw [sraRslt, window_signExtend a (BitVec.isLt _), shamt_low]
  | add | sub | xor | or | and => rfl
  | sll =>
    change a <<< (b.extractLsb' 0 5).toNat = a <<< (b.toNat % 32)
    rw [low_five]
  | slt => exact sltRslt_eq a b
  | sltu => exact sltuRslt_eq a b
  | srl =>
    change a >>> (b.extractLsb' 0 5).toNat = a >>> (b.toNat % 32)
    rw [low_five]
  | sra =>
    change sraRslt a (b.extractLsb' 0 5) = a.sshiftRight (b.toNat % 32)
    rw [sraRslt, window_signExtend a (BitVec.isLt _), low_five]
  | mul =>
    change (mulSsRslt a b).extractLsb' 0 32 = BitVec.ofInt 32 (a.toInt * b.toInt)
    rw [mulSsRslt, signExtend_mul, low_ofInt]
  | mulh =>
    change (mulSsRslt a b).extractLsb' 32 32 = BitVec.ofInt 32 (a.toInt * b.toInt / 2 ^ 32)
    rw [mulSsRslt, signExtend_mul, high_ofInt]
  | mulhsu =>
    change (mulSuRslt a b).extractLsb' 32 32 = BitVec.ofInt 32 (a.toInt * b.toNat / 2 ^ 32)
    rw [mulSuRslt, signExtend_mul, toInt_setWidth_succ, high_ofInt]
  | mulhu =>
    change (mulUuRslt a b).extractLsb' 32 32 = BitVec.ofNat 32 (a.toNat * b.toNat / 2 ^ 32)
    rw [mulUuRslt, setWidth_mul, high_ofNat]

theorem class_encodes (legal : Encodes m instr) :
    isLoad instr = false ∧ isSInstr instr = false := by
  constructor
  · rw [isLoad, opFlags, decFlags_encodes legal]
    cases m <;> rfl
  · rw [isSInstr, format_encodes legal]
    cases m <;> rfl

theorem aluResult_encodes (legal : Encodes m instr) (a b pc : Word) :
    aluResult (opFlags instr) (isLoad instr) (isSInstr instr) a b (imm instr) pc =
      m.value instr pc a b := by
  rw [(class_encodes legal).1, (class_encodes legal).2, opFlags, decFlags_encodes legal]
  exact aluResult_value legal a b pc

/-- Every legal word of these instructions sets the one flag that is its own, and both cores
compute its value from whatever the operands are. -/
theorem decode_and_execute_conform (m : Mnemonic) (instr : Word) (legal : Encodes m instr) :
    opFlags instr = opFlagOf m ∧ (operationFlags instr).count true = 1 ∧
    (∀ a b pc : Word,
      aluResult (opFlags instr) (isLoad instr) (isSInstr instr) a b (imm instr) pc =
        m.value instr pc a b) ∧
    (∀ x : IdEx, x.ctrl = Core.idCtrlBus instr → x.imm = imm instr →
      x.result = m.value instr x.pc x.src1Value x.src2Value) ∧
    ∀ s : ScCore, s.result instr = m.value instr s.pc (s.src1Value instr) (s.src2Value instr) := by
  refine ⟨?_, count_operationFlags legal, aluResult_encodes legal, ?_, ?_⟩
  · rw [opFlags, decFlags_encodes legal]
  · intro x ctrl immediate
    rw [IdEx.result, ctrl, immediate]
    exact aluResult_encodes legal _ _ _
  · intro s
    exact aluResult_encodes legal _ _ _

/-- `mulhsu x3, x1, x2`: minus one times the largest unsigned operand. -/
theorem decode_and_execute_conform_mulhsu :
    aluResult (opFlags 0x0220a1b3) (isLoad 0x0220a1b3) (isSInstr 0x0220a1b3) 0xFFFFFFFF 0xFFFFFFFF
      (imm 0x0220a1b3) 0 = 0xFFFFFFFF :=
  ((decode_and_execute_conform .mulhsu 0x0220a1b3
    ⟨by decide, by rintro f ⟨⟩; decide, by rintro f ⟨⟩; decide⟩).2.2.1 _ _ _).trans (by decide)

end Execute

end RiscvSoc.Cpu.Conformance
