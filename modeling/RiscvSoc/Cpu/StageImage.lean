/- GID: RiscvSoc/Cpu/StageImage
   generality: G
   utility: support
   digest: What an instruction of the single-cycle core looks like in EX, MEM and WB. -/

import RiscvSoc.Cpu.Commit
import RiscvSoc.Cpu.DecoderFacts

set_option autoImplicit false
set_option relaxedAutoImplicit false

namespace RiscvSoc.Cpu.StageImage

open RiscvSoc.Cpu.Decoder
open RiscvSoc.Cpu.Datapath
open RiscvSoc.Cpu.SingleCycle
open RiscvSoc.Cpu.Pipeline
open RiscvSoc.Cpu.Commit
open RiscvSoc.Cpu.DecoderFacts

/-- `x` is what ID hands over for `instr` when the single-cycle core stands at `g`. An operand
that the format does not declare valid is left open: no hazard test guards it. -/
structure InEx (g : ScCore) (instr : Word) (x : IdEx) : Prop where
  valid : x.valid = true
  rd : x.rd = Decoder.rd instr
  ctrl : x.ctrl = Core.idCtrlBus instr
  imm : x.imm = Decoder.imm instr
  pc : x.pc = g.pc
  csrAddr : x.csrAddr = Decoder.csrAddr instr
  src1 : rs1Valid instr = true → x.src1Value = g.src1Value instr
  src2 : rs2Valid instr = true → x.src2Value = g.src2Value instr
  opVal : isCsr instr = true → x.src2Value = g.opVal instr

/-- The same instruction one stage on, carrying its result. -/
def InMem (g : ScCore) (instr : Word) (x : ExMem) : Prop := ∃ y, InEx g instr y ∧ x = y.toExMem

/-- And in WB; only a load looks at the word the memory returned. -/
def InWb (g : ScCore) (instr ldData : Word) (x : MemWb) : Prop :=
  ∃ y ld, InMem g instr y ∧ (isLoad instr = true → ld = ldData) ∧ x = y.toMemWb ld

section Ex

variable {g : ScCore} {instr : Word} {x : IdEx}

private theorem InEx.result (m : InEx g instr x) : x.result = g.result instr := by
  rw [IdEx.result, m.ctrl, m.imm, m.pc]
  exact aluResult_congr instr m.src1 m.src2 _ _

theorem InEx.takenBr (m : InEx g instr x) : x.takenBr = g.takenBr instr := by
  rw [IdEx.takenBr, m.ctrl]
  exact takenBr_congr instr m.src1 m.src2

theorem InEx.wrEn (m : InEx g instr x) : x.wrEn = ScCore.wrEn instr := by
  rw [IdEx.wrEn, m.ctrl, m.rd]
  rfl

/-- The redirect of a jump, branch, trap or return agrees with the single-cycle next pc, provided
the CSR it jumps through is up to date. -/
theorem InEx.nextPc {s : Core} (m : InEx g instr s.idEx) (noIrq : s.irqTaken false = false)
    (flush : s.idEx.flushBase = true)
    (mtvec : isEcall instr = true ∨ isEbreak instr = true → s.csr.mtvec = g.csr.mtvec)
    (mepc : isMret instr = true → s.csr.mepc = g.csr.mepc) :
    s.nextPc false = g.nextPc instr := by
  have jalr : (opFlags instr).isJalr = true → s.idEx.src1Value = g.src1Value instr :=
    fun h => m.src1 (rs1Valid_of_jalr h)
  have pc := m.pc
  have imm := m.imm
  simp only [IdEx.flushBase, IdEx.isPriv, m.takenBr, m.ctrl, Core.idCtrlBus, Bool.or_eq_true]
    at flush
  simp only [Core.nextPc, noIrq, m.takenBr, m.ctrl, Core.idCtrlBus, IdEx.brTgtPc, IdEx.jalrTgtPc,
    pc, imm, ScCore.nextPc, Bool.or_eq_true, Bool.false_eq_true, if_false]
  split
  · rfl
  split
  · rename_i h
    rw [jalr h]
  split
  · rename_i h
    exact mtvec h
  split
  · rename_i h
    exact mepc h
  · tauto

/-- An instruction that redirects nothing falls through in the single-cycle core too. -/
theorem InEx.fallThrough (m : InEx g instr x) (straight : x.flushBase = false) :
    g.nextPc instr = g.pc + 4 := by
  simp only [IdEx.flushBase, IdEx.isPriv, m.takenBr, m.ctrl, Core.idCtrlBus,
    Bool.or_eq_false_iff] at straight
  obtain ⟨⟨⟨taken, jal⟩, jalr⟩, ⟨ecall, ebreak⟩, mret⟩ := straight
  simp [ScCore.nextPc, taken, jal, jalr, ecall, ebreak, mret]

end Ex

section Mem

variable {g : ScCore} {instr : Word} {x : ExMem}

theorem InMem.isLoad (m : InMem g instr x) : x.isLoad = Decoder.isLoad instr := by
  obtain ⟨y, ex, rfl⟩ := m
  simp [IdEx.toExMem, ex.ctrl, Core.idCtrlBus]

theorem InMem.rd (m : InMem g instr x) : x.rd = Decoder.rd instr := by
  obtain ⟨y, ex, rfl⟩ := m
  exact ex.rd

theorem InMem.wrEn (m : InMem g instr x) : x.wrEn = ScCore.wrEn instr := by
  obtain ⟨y, ex, rfl⟩ := m
  exact ex.wrEn

theorem InMem.we (m : InMem g instr x) : x.dataPort.we = Decoder.isSInstr instr := by
  obtain ⟨y, ex, rfl⟩ := m
  simp [ExMem.dataPort, IdEx.toExMem, ex.ctrl, Core.idCtrlBus, ex.valid]

theorem InMem.re (m : InMem g instr x) : x.dataPort.re = Decoder.isLoad instr := by
  obtain ⟨y, ex, rfl⟩ := m
  simp [ExMem.dataPort, IdEx.toExMem, ex.ctrl, Core.idCtrlBus, ex.valid]

theorem InMem.addr (m : InMem g instr x) : x.dataPort.addr = (g.dataPort instr).addr := by
  obtain ⟨y, ex, rfl⟩ := m
  exact ex.result

/-- A store drives the single-cycle core's data port in full. -/
theorem InMem.dataPort (m : InMem g instr x) (store : isSInstr instr = true) :
    x.dataPort = g.dataPort instr := by
  have load : Decoder.isLoad instr = false := by
    rw [← Bool.not_eq_true]
    intro h
    simp [isSInstr_of_load h] at store
  obtain ⟨y, ex, rfl⟩ := m
  have src2 := ex.src2 (rs2Valid_of_sInstr store)
  have result := ex.result
  simp [ExMem.dataPort, IdEx.toExMem, ExMem.byteOff, ScCore.dataPort, ScCore.byteOff, ex.ctrl,
    Core.idCtrlBus, ex.valid, store, load, src2, result]

private theorem InMem.isCsr (m : InMem g instr x) : x.isCsr = Decoder.isCsr instr := by
  obtain ⟨y, ex, rfl⟩ := m
  simp [IdEx.toExMem, ex.ctrl, Core.idCtrlBus]

theorem InMem.csrAddr (m : InMem g instr x) : x.csrAddr = Decoder.csrAddr instr := by
  obtain ⟨y, ex, rfl⟩ := m
  exact ex.csrAddr

theorem InMem.store (m : InMem g instr x) : DataPort.store x.dataPort = refStore g instr := by
  cases store : isSInstr instr with
  | true => rw [m.dataPort store, refStore]
  | false =>
    have we := m.we
    simp only [store] at we
    simp [DataPort.store, refStore, ScCore.dataPort, we, store]

end Mem

section Wb

variable {g : ScCore} {instr ldData : Word} {x : MemWb} {c : CsrFile}

theorem InWb.csrAddr (m : InWb g instr ldData x) : x.csrAddr = Decoder.csrAddr instr := by
  obtain ⟨y, ld, mem, -, rfl⟩ := m
  exact mem.csrAddr

theorem InWb.isCsr (m : InWb g instr ldData x) : x.isCsr = Decoder.isCsr instr := by
  obtain ⟨y, ld, mem, -, rfl⟩ := m
  exact mem.isCsr

theorem InWb.rd (m : InWb g instr ldData x) : x.rd = Decoder.rd instr := by
  obtain ⟨y, ld, mem, -, rfl⟩ := m
  exact mem.rd

theorem InWb.wrEn (m : InWb g instr ldData x) : x.wrEn = ScCore.wrEn instr := by
  obtain ⟨y, ld, mem, -, rfl⟩ := m
  exact mem.wrEn

theorem InWb.valid (m : InWb g instr ldData x) : x.valid = true := by
  obtain ⟨-, ld, ⟨y, ex, rfl⟩, -, rfl⟩ := m
  exact ex.valid

/-- WB writes the single-cycle core's register value, provided the CSR it reads agrees. -/
theorem InWb.wbData (m : InWb g instr ldData x)
    (csr : Decoder.isCsr instr = true →
      csrRdata c false (Decoder.csrAddr instr) = g.csrRdata instr) :
    x.wbData c false = g.wrData instr ldData := by
  cases h : Decoder.isCsr instr with
  | true => simp [MemWb.wbData, ScCore.wrData, m.isCsr, h, m.csrAddr, csr h]
  | false =>
    obtain ⟨-, ld, ⟨y, ex, rfl⟩, same, rfl⟩ := m
    cases load : Decoder.isLoad instr with
    | true =>
      simp [MemWb.wbData, ScCore.wrData, h, load, same load, ExMem.toMemWb, ExMem.wrData,
        IdEx.toExMem, ExMem.byteOff, ScCore.byteOff, ex.result, ex.ctrl, Core.idCtrlBus]
    | false =>
      simp [MemWb.wbData, ScCore.wrData, h, load, ExMem.toMemWb, ExMem.wrData,
        IdEx.toExMem, ex.result, ex.ctrl, Core.idCtrlBus]

/-- WB writes the CSR value of the single-cycle core, on the same condition. -/
theorem InWb.csrNewVal (m : InWb g instr ldData x) (isCsr : Decoder.isCsr instr = true)
    (csr : csrRdata c false (Decoder.csrAddr instr) = g.csrRdata instr) :
    x.csrNewVal c false = g.csrWdata instr := by
  have addr := m.csrAddr
  obtain ⟨-, ld, ⟨y, ex, rfl⟩, -, rfl⟩ := m
  have optype : (y.toExMem.toMemWb ld).csrOptype = csrOptype instr := by
    simp [ExMem.toMemWb, IdEx.toExMem, ex.ctrl, Core.idCtrlBus]
  have opVal : (y.toExMem.toMemWb ld).csrOpVal = g.opVal instr := ex.opVal isCsr
  rw [MemWb.csrNewVal, optype, opVal, addr, csr, csrNewVal_mnemonic isCsr]
  rfl

end Wb

end RiscvSoc.Cpu.StageImage
