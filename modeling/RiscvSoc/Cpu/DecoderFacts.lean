/- GID: RiscvSoc/Cpu/DecoderFacts
   generality: G
   utility: support
   digest: Which operands an operation reads, and which decoder outputs exclude each other. -/

import RiscvSoc.Cpu.Datapath
import Mathlib.Tactic.SplitIfs

set_option autoImplicit false
set_option relaxedAutoImplicit false

namespace RiscvSoc.Cpu.DecoderFacts

open RiscvSoc.Cpu.Decoder
open RiscvSoc.Cpu.Datapath

/-- A decoded word either raises no flag or hits a row of the table. -/
theorem decFlags_cases (instr : Word) :
    decFlags instr = {} ∨
      ∃ r ∈ decBitsRows, decFlags instr = r.flags ∧ opcode instr = r.opcode ∧
        r.funct3.all (· == funct3 instr) = true := by
  unfold decFlags decBitsCase
  cases found : decBitsRows.find? fun r =>
      r.hits (instr.getLsbD 25) (instr.getLsbD 30) (funct3 instr) (opcode instr) with
  | none => exact Or.inl rfl
  | some r =>
    have hit := List.find?_some found
    simp only [CasezRow.hits, Bool.and_eq_true, beq_iff_eq] at hit
    exact Or.inr ⟨r, List.mem_of_find?_eq_some found, rfl, hit.2.symm, hit.1.2⟩

/-- `instr[6:2]` lies inside the opcode. -/
theorem format_opcode (instr : Word) :
    format instr = decoderLogic ((opcode instr).extractLsb' 2 5) := by
  have fields : instr.extractLsb' 2 5 = (opcode instr).extractLsb' 2 5 := by
    ext i hi
    simp [opcode, BitVec.getElem_extractLsb', Nat.add_comm 2 i]
  rw [format, fields]

/-- What holds of every row that raises a flag holds of every word that does. -/
theorem of_row {instr : Word} (flag : OpFlags → Bool) (p : OpFlags → Format → Prop)
    (rows : ∀ r ∈ decBitsRows, flag r.flags.op = true →
      p r.flags.op (decoderLogic (r.opcode.extractLsb' 2 5)))
    (silent : flag {} = false) (raised : flag (opFlags instr) = true) :
    p (opFlags instr) (format instr) := by
  rcases decFlags_cases instr with none | ⟨r, member, flags, opc, -⟩
  · rw [opFlags, none, silent] at raised
    exact absurd raised Bool.false_ne_true
  · rw [opFlags, flags] at raised ⊢
    rw [format_opcode, opc]
    exact rows r member raised

private def readsSrc1 (op : OpFlags) : Bool :=
  decide (op ≠ {} ∧ op ≠ { isLui := true } ∧ op ≠ { isAuipc := true } ∧ op ≠ { isJal := true })

private def readsSrc2 (op : OpFlags) : Bool :=
  op.isBeq || op.isBne || op.isBlt || op.isBge || op.isBltu || op.isBgeu || op.isAdd || op.isSub ||
  op.isSll || op.isSlt || op.isSltu || op.isXor || op.isSrl || op.isSra || op.isOr || op.isAnd ||
  op.isMul || op.isMulh || op.isMulhsu || op.isMulhu

private theorem rows_reads : ∀ r ∈ decBitsRows,
    let f := decoderLogic (r.opcode.extractLsb' 2 5)
    (readsSrc1 r.flags.op = true → (f.isR || f.isS || f.isB || f.isI) = true) ∧
    (readsSrc2 r.flags.op = true → (f.isR || f.isS || f.isB) = true) := by
  decide

private theorem rows_load : ∀ r ∈ decBitsRows, r.flags.op.isLoad = true →
    (decoderLogic (r.opcode.extractLsb' 2 5)).isS = false := by
  decide

private theorem rows_csr : ∀ r ∈ decBitsRows, r.flags.csr.isCsr = true →
    r.flags.op = {} ∧ r.opcode = 0b1110011 ∧ r.funct3.all (· == 0b000) = false := by
  decide

private theorem rows_mnemonic : ∀ r ∈ decBitsRows, r.flags.csr.isCsr = true →
    r.flags.csr = { isCsrrw := true } ∨ r.flags.csr = { isCsrrs := true } ∨
    r.flags.csr = { isCsrrc := true } ∨ r.flags.csr = { isCsrrwi := true } ∨
    r.flags.csr = { isCsrrsi := true } ∨ r.flags.csr = { isCsrrci := true } := by
  decide

private theorem rs1Valid_of_reads {instr : Word} (reads : readsSrc1 (opFlags instr) = true) :
    rs1Valid instr = true := by
  rcases decFlags_cases instr with none | ⟨r, member, flags, opc, -⟩
  · simp [opFlags, none, readsSrc1] at reads
  · have class1 := (rows_reads r member).1 (by rwa [opFlags, flags] at reads)
    rw [← opc, ← format_opcode] at class1
    simp only [rs1Valid]
    rw [class1, Bool.true_or]

private theorem rs2Valid_of_reads {instr : Word} (reads : readsSrc2 (opFlags instr) = true) :
    rs2Valid instr = true := by
  rcases decFlags_cases instr with none | ⟨r, member, flags, opc, -⟩
  · simp [opFlags, none, readsSrc2] at reads
  · have class2 := (rows_reads r member).2 (by rwa [opFlags, flags] at reads)
    rwa [← opc, ← format_opcode] at class2

theorem rs1Valid_of_jalr {instr : Word} (jalr : (opFlags instr).isJalr = true) :
    rs1Valid instr = true := by
  apply rs1Valid_of_reads
  simp only [readsSrc1, decide_eq_true_eq]
  refine ⟨?_, ?_, ?_, ?_⟩ <;> intro h <;> simp [h] at jalr

private theorem rs1Valid_of_sInstr {instr : Word} (store : isSInstr instr = true) :
    rs1Valid instr = true := by
  simp only [isSInstr] at store
  simp [rs1Valid, store]

theorem rs2Valid_of_sInstr {instr : Word} (store : isSInstr instr = true) :
    rs2Valid instr = true := by
  simp only [isSInstr] at store
  simp [rs2Valid, store]

theorem isSInstr_of_load {instr : Word} (load : isLoad instr = true) : isSInstr instr = false := by
  rcases decFlags_cases instr with none | ⟨r, member, flags, opc, -⟩
  · simp [isLoad, opFlags, none, OpFlags.isLoad] at load
  · have notStore := rows_load r member (by rwa [isLoad, opFlags, flags] at load)
    rwa [← opc, ← format_opcode] at notStore

/-- A CSR instruction raises no other operation flag and is none of the privileged words. -/
theorem of_isCsr {instr : Word} (csr : isCsr instr = true) :
    opFlags instr = {} ∧ format instr = { isCsr := true } ∧ isEcall instr = false ∧
      isEbreak instr = false ∧ isMret instr = false := by
  rcases decFlags_cases instr with none | ⟨r, member, flags, opc, f3⟩
  · simp [isCsr, csrFlags, none, CsrFlags.isCsr] at csr
  · obtain ⟨op, opc', zero⟩ := rows_csr r member (by rwa [isCsr, csrFlags, flags] at csr)
    have nonzero : (funct3 instr == 0b000) = false := by
      rw [beq_eq_false_iff_ne]
      intro h
      rw [h, zero] at f3
      exact Bool.false_ne_true f3
    refine ⟨by rw [opFlags, flags, op], ?_, ?_, ?_, ?_⟩
    · rw [format_opcode, opc, opc']
      decide
    all_goals simp only [isEcall, isEbreak, isMret, nonzero, Bool.and_false, Bool.false_and]

private theorem rows_system : ∀ r ∈ decBitsRows, r.opcode = 0b1110011 →
    r.funct3.all (· == 0b000) = false := by
  decide

/-- No pattern matches a privileged word: it raises no operation flag and no CSR mnemonic. -/
theorem decFlags_of_priv {instr : Word}
    (priv : isEcall instr = true ∨ isEbreak instr = true ∨ isMret instr = true) :
    decFlags instr = {} := by
  have fields : opcode instr = 0b1110011 ∧ funct3 instr = 0b000 := by
    simp only [isEcall, isEbreak, isMret, Bool.and_eq_true, beq_iff_eq] at priv
    tauto
  rcases decFlags_cases instr with none | ⟨r, member, -, opc, f3⟩
  · exact none
  · rw [fields.2, rows_system r member (by rw [← opc, fields.1])] at f3
    exact absurd f3 Bool.false_ne_true

theorem isCsr_of_priv {instr : Word}
    (priv : isEcall instr = true ∨ isEbreak instr = true ∨ isMret instr = true) :
    isCsr instr = false := by
  rw [isCsr, csrFlags, decFlags_of_priv priv]
  rfl

theorem rs1Valid_of_csr {instr : Word} (csr : isCsr instr = true)
    (register : (csrFlags instr).isImmediate = false) : rs1Valid instr = true := by
  simp [rs1Valid, (of_isCsr csr).2.1, register]

/-- `csr_optype` keeps exactly what the write value needs of the six mnemonics. -/
theorem csrNewVal_mnemonic {instr : Word} (csr : isCsr instr = true) (old opVal : Word) :
    csrNewVal (csrOptype instr) old opVal =
      if (csrFlags instr).isCsrrw || (csrFlags instr).isCsrrwi then opVal
      else if (csrFlags instr).isCsrrs || (csrFlags instr).isCsrrsi then old ||| opVal
      else if (csrFlags instr).isCsrrc || (csrFlags instr).isCsrrci then old &&& ~~~opVal
      else 0 := by
  have six : csrFlags instr = { isCsrrw := true } ∨ csrFlags instr = { isCsrrs := true } ∨
      csrFlags instr = { isCsrrc := true } ∨ csrFlags instr = { isCsrrwi := true } ∨
      csrFlags instr = { isCsrrsi := true } ∨ csrFlags instr = { isCsrrci := true } := by
    rcases decFlags_cases instr with none | ⟨r, member, flags, -, -⟩
    · simp [isCsr, csrFlags, none, CsrFlags.isCsr] at csr
    · rw [csrFlags, flags]
      exact rows_mnemonic r member (by rwa [isCsr, csrFlags, flags] at csr)
  rcases six with h | h | h | h | h | h <;> simp [csrOptype, csrNewVal, h]

/-- The flags under which the ALU mux never selects a source operand. -/
private theorem aluResult_no_source {op : OpFlags} (quiet : readsSrc1 op = false)
    (a a' b b' imm pc : Word) :
    aluResult op false false a b imm pc = aluResult op false false a' b' imm pc := by
  simp only [readsSrc1, decide_eq_false_iff_not, not_and_or, not_not] at quiet
  rcases quiet with h | h | h | h <;> simp [h, aluResult]

private theorem aluResult_no_src2 {op : OpFlags} (quiet : readsSrc2 op = false) (load store : Bool)
    (a b b' imm pc : Word) :
    aluResult op load store a b imm pc = aluResult op load store a b' imm pc := by
  simp only [readsSrc2, Bool.or_eq_false_iff] at quiet
  simp only [aluResult, quiet, Bool.false_eq_true, if_false]

/-- The result depends only on the operands the format declares valid. -/
theorem aluResult_congr (instr : Word) {a a' b b' : Word}
    (same1 : rs1Valid instr = true → a = a') (same2 : rs2Valid instr = true → b = b')
    (imm pc : Word) :
    aluResult (opFlags instr) (isLoad instr) (isSInstr instr) a b imm pc =
      aluResult (opFlags instr) (isLoad instr) (isSInstr instr) a' b' imm pc := by
  by_cases store : isSInstr instr = true
  · rw [same1 (rs1Valid_of_sInstr store), same2 (rs2Valid_of_sInstr store)]
  rw [Bool.not_eq_true] at store
  cases reads1 : readsSrc1 (opFlags instr) with
  | true =>
    rw [same1 (rs1Valid_of_reads reads1)]
    cases reads2 : readsSrc2 (opFlags instr) with
    | true => rw [same2 (rs2Valid_of_reads reads2)]
    | false => exact aluResult_no_src2 reads2 _ _ _ _ _ _ _
  | false =>
    have noLoad : isLoad instr = false := by
      rw [← Bool.not_eq_true]
      intro load
      simp only [readsSrc1, decide_eq_false_iff_not, not_and_or, not_not] at reads1
      rcases reads1 with h | h | h | h <;> simp [isLoad, h, OpFlags.isLoad] at load
    rw [store, noLoad]
    exact aluResult_no_source reads1 _ _ _ _ _ _

/-- The branch decision looks at the operands that the decoder calls valid. -/
theorem takenBr_congr (instr : Word) {a a' b b' : Word}
    (same1 : rs1Valid instr = true → a = a') (same2 : rs2Valid instr = true → b = b') :
    takenBr (opFlags instr) a b = takenBr (opFlags instr) a' b' := by
  cases reads2 : readsSrc2 (opFlags instr) with
  | true =>
    have reads1 : readsSrc1 (opFlags instr) = true := by
      simp only [readsSrc1, decide_eq_true_eq]
      refine ⟨?_, ?_, ?_, ?_⟩ <;> intro h <;> simp [h, readsSrc2] at reads2
    rw [same1 (rs1Valid_of_reads reads1), same2 (rs2Valid_of_reads reads2)]
  | false =>
    simp only [readsSrc2, Bool.or_eq_false_iff] at reads2
    simp only [takenBr, reads2, Bool.false_eq_true, if_false]

end RiscvSoc.Cpu.DecoderFacts
