/- GID: RiscvSoc/Cpu/UnknownWord
   generality: G
   utility: main
   digest: Words that no decoder pattern matches, and what their instruction class still does. -/

import RiscvSoc.Cpu.PipelineEdge
import RiscvSoc.Cpu.StageImage

set_option autoImplicit false
set_option relaxedAutoImplicit false

namespace RiscvSoc.Cpu.UnknownWord

open RiscvSoc.Cpu.Decoder
open RiscvSoc.Cpu.DecoderFacts
open RiscvSoc.Cpu.Datapath
open RiscvSoc.Cpu.Pipeline
open RiscvSoc.Cpu.PipelineEdge
open RiscvSoc.Cpu.SingleCycle
open RiscvSoc.Cpu.Commit
open RiscvSoc.Cpu.StageImage

/-- The decoder sets none of its operation flags. -/
structure Undecoded (instr : Word) : Prop where
  flags : decFlags instr = {}
  ecall : isEcall instr = false
  ebreak : isEbreak instr = false
  mret : isMret instr = false

/-- The values of `instr[6:2]` that the class decoder takes for an instruction with a
destination, and for a store. -/
def rdClasses : List (BitVec 5) :=
  [0b00101, 0b01101, 0b00000, 0b00001, 0b00100, 0b00110, 0b11001, 0b01011, 0b01100, 0b01110,
    0b10100, 0b11011]

def storeClasses : List (BitVec 5) := [0b01000, 0b01001]

/-- On the single-cycle core the word changes pc only, writes no register and asks nothing of
the data memory. -/
structure NoOp (s : ScCore) (instr : Word) : Prop where
  edge : ∀ i : CoreIn, i.imemRdata = instr → i.rst = false → i.halt = false → s.stall i = false →
    s.posedge i = { s with pc := s.pc + 4 }
  regWrite : ∀ ldData, refRegWrite s instr ldData = []
  req : (s.dataPort instr).req = false

/-- Nor does the word do anything on its way through the stages of the pipelined core: in EX it
redirects nothing and changes no CSR, in MEM it raises no strobe, in WB it commits nothing. -/
structure PipelinedNoOp (g : ScCore) (instr : Word) : Prop where
  ex : ∀ (s : Core) (i : CoreIn), InEx g instr s.idEx → s.irqTaken i.timerIrq = false →
    s.nextPc i.timerIrq = s.pc + 4 ∧ s.exFlush i.timerIrq = false ∧
      s.nextCsr i = if i.halt then s.csr else s.memWb.commitCsr s.csr i.timerIrq
  mem : ∀ s : Core, InMem g instr s.exMem → s.dataPort.req = false
  wb : ∀ (s : Core) (i : CoreIn) (ldData : Word), InWb g instr ldData s.memWb →
    regWrite s i = [] ∧ csrWrite s i = []

variable {instr : Word} {g : ScCore}

private theorem rdClasses_iff : ∀ op : BitVec 5,
    ((decoderLogic op).isR || (decoderLogic op).isI || (decoderLogic op).isU ||
      (decoderLogic op).isJ) = true ↔ op ∈ rdClasses := by
  decide

private theorem storeClasses_iff :
    ∀ op : BitVec 5, (decoderLogic op).isS = true ↔ op ∈ storeClasses := by
  decide

namespace Undecoded

private theorem opFlags (undecoded : Undecoded instr) : Decoder.opFlags instr = {} := by
  rw [Decoder.opFlags, undecoded.flags]

private theorem isCsr (undecoded : Undecoded instr) : Decoder.isCsr instr = false := by
  rw [Decoder.isCsr, csrFlags, undecoded.flags]
  rfl

private theorem isLoad (undecoded : Undecoded instr) : Decoder.isLoad instr = false := by
  rw [Decoder.isLoad, undecoded.opFlags]
  rfl

private theorem wrEn_iff (undecoded : Undecoded instr) :
    ScCore.wrEn instr = true ↔ instr.extractLsb' 2 5 ∈ rdClasses ∧ rd instr ≠ 0 := by
  rw [← rdClasses_iff, ScCore.wrEn, rdValid, undecoded.isCsr, Bool.or_false, format]
  split_ifs with zero
  · simp [zero]
  · exact ⟨fun raised => ⟨raised, zero⟩, fun raised => raised.1⟩

private theorem isSInstr_iff : isSInstr instr = true ↔ instr.extractLsb' 2 5 ∈ storeClasses :=
  storeClasses_iff _

private theorem takenBr (undecoded : Undecoded instr) (s : ScCore) : s.takenBr instr = false := by
  rw [ScCore.takenBr, undecoded.opFlags]
  rfl

private theorem nextPc (undecoded : Undecoded instr) (s : ScCore) : s.nextPc instr = s.pc + 4 := by
  simp [ScCore.nextPc, undecoded.takenBr, undecoded.opFlags, undecoded.ecall, undecoded.ebreak,
    undecoded.mret]

private theorem nextCsr (undecoded : Undecoded instr) (s : ScCore) : s.nextCsr instr = s.csr := by
  simp [ScCore.nextCsr, undecoded.isCsr, undecoded.ecall, undecoded.ebreak]

private theorem req (undecoded : Undecoded instr) (s : ScCore) :
    (s.dataPort instr).req = isSInstr instr := by
  simp [ScCore.dataPort, DataPort.req, undecoded.isLoad]

private theorem refRegWrite_iff (s : ScCore) :
    (∀ ldData, refRegWrite s instr ldData = []) ↔ ScCore.wrEn instr = false := by
  constructor
  · intro none
    have empty := none 0
    simp only [refRegWrite] at empty
    apply Bool.eq_false_iff.mpr
    intro on
    have nonzero : rd instr ≠ 0 := by
      rintro zero
      simp [ScCore.wrEn, zero] at on
    rw [on, bne_iff_ne.mpr nonzero, Bool.and_self, if_pos rfl] at empty
    cases empty
  · intro off ldData
    simp [refRegWrite, off]

private theorem noOp_iff (undecoded : Undecoded instr) (s : ScCore) :
    NoOp s instr ↔ ScCore.wrEn instr = false ∧ isSInstr instr = false := by
  constructor
  · rintro ⟨-, regWrite, req⟩
    exact ⟨(refRegWrite_iff s).mp regWrite, (undecoded.req s).symm.trans req⟩
  · rintro ⟨off, store⟩
    refine ⟨fun i fetched rst halt ready => ?_, (refRegWrite_iff s).mpr off,
      (undecoded.req s).trans store⟩
    ext1 <;>
      simp [ScCore.posedge, ScCore.live, rst, halt, ready, fetched, undecoded.nextPc,
        undecoded.nextCsr, ScCore.nextRegfile, off]

private theorem flushBase (undecoded : Undecoded instr) {x : IdEx} (image : InEx g instr x) :
    x.flushBase = false ∧ x.isPriv = false := by
  have taken : x.takenBr = false := image.takenBr.trans (undecoded.takenBr g)
  have priv : x.isPriv = false := by
    simp [IdEx.isPriv, image.ctrl, Core.idCtrlBus, undecoded.ecall, undecoded.ebreak,
      undecoded.mret]
  refine ⟨?_, priv⟩
  simp [IdEx.flushBase, taken, priv, image.ctrl, Core.idCtrlBus, undecoded.opFlags]

private theorem pipelinedNoOp_ex (undecoded : Undecoded instr) (s : Core) (i : CoreIn)
    (image : InEx g instr s.idEx) (noIrq : s.irqTaken i.timerIrq = false) :
    s.nextPc i.timerIrq = s.pc + 4 ∧ s.exFlush i.timerIrq = false ∧
      s.nextCsr i = if i.halt then s.csr else s.memWb.commitCsr s.csr i.timerIrq := by
  obtain ⟨base, priv⟩ := undecoded.flushBase image
  have straight : s.exFlush i.timerIrq = false := by rw [Core.exFlush, base, noIrq, Bool.or_self]
  simp only [IdEx.isPriv, Bool.or_eq_false_iff] at priv
  refine ⟨nextPc_straight straight, straight, ?_⟩
  simp [Core.nextCsr, Core.trapEntry, Core.mretCommit, noIrq, priv]

def inEx (g : ScCore) (instr : Word) : IdEx where
  rd := rd instr
  ctrl := Core.idCtrlBus instr
  imm := imm instr
  src1Value := g.src1Value instr
  src2Value := g.src2Value instr
  pc := g.pc
  valid := true
  csrAddr := csrAddr instr

private theorem inEx_image (undecoded : Undecoded instr) (g : ScCore) :
    InEx g instr (inEx g instr) where
  valid := rfl
  rd := rfl
  ctrl := rfl
  imm := rfl
  pc := rfl
  csrAddr := rfl
  src1 := fun _ => rfl
  src2 := fun _ => rfl
  opVal := fun csr => absurd (undecoded.isCsr.symm.trans csr) (by decide)

private theorem pipelinedNoOp_iff (undecoded : Undecoded instr) (g : ScCore) :
    PipelinedNoOp g instr ↔ ScCore.wrEn instr = false ∧ isSInstr instr = false := by
  have image := undecoded.inEx_image g
  have inMem : InMem g instr (inEx g instr).toExMem := ⟨_, image, rfl⟩
  constructor
  · rintro ⟨-, mem, wb⟩
    constructor
    · let s : Core :=
        { Core.reset g.csr g.regfile with memWb := (inEx g instr).toExMem.toMemWb 0 }
      have committed := (wb s { imemRdata := 0, imemVld := true, ldData := 0, dmemVld := true } 0
        ⟨_, 0, inMem, fun _ => rfl, rfl⟩).1
      apply Bool.eq_false_iff.mpr
      intro on
      have nonzero : rd instr ≠ 0 := by
        rintro zero
        simp [ScCore.wrEn, zero] at on
      have write : (s.memWb.wrEn && s.memWb.rd != 0 && s.memWb.valid) = true := by
        simp only [s, ExMem.toMemWb, IdEx.toExMem, image.wrEn.trans on, Bool.true_and]
        simpa [inEx] using nonzero
      rw [regWrite, write, Bool.not_false, Bool.and_self, if_pos rfl] at committed
      cases committed
    · have silent := mem { Core.reset g.csr g.regfile with exMem := (inEx g instr).toExMem } inMem
      rw [Core.dataPort, DataPort.req, inMem.we, inMem.re, undecoded.isLoad, Bool.or_false]
        at silent
      exact silent
  · rintro ⟨off, store⟩
    refine ⟨undecoded.pipelinedNoOp_ex, fun s image => ?_, fun s i ldData image => ?_⟩
    · rw [Core.dataPort, DataPort.req, image.we, image.re, undecoded.isLoad, store, Bool.or_self]
    · rw [regWrite, csrWrite, image.wrEn, off, image.isCsr, undecoded.isCsr]
      simp

end Undecoded

/-- A word without a pattern is a no-op on either core exactly when its class neither has a
destination other than x0 nor stores; otherwise zero is written to rd, or the store strobe
rises. -/
theorem undecoded_noOp_iff (instr : Word) (undecoded : Undecoded instr) (g : ScCore) :
    (NoOp g instr ↔ ¬ (instr.extractLsb' 2 5 ∈ rdClasses ∧ rd instr ≠ 0) ∧
      instr.extractLsb' 2 5 ∉ storeClasses) ∧
    (PipelinedNoOp g instr ↔ ¬ (instr.extractLsb' 2 5 ∈ rdClasses ∧ rd instr ≠ 0) ∧
      instr.extractLsb' 2 5 ∉ storeClasses) := by
  rw [undecoded.noOp_iff, undecoded.pipelinedNoOp_iff, ← undecoded.wrEn_iff,
    ← Undecoded.isSInstr_iff, Bool.not_eq_true, Bool.not_eq_true]
  exact ⟨Iff.rfl, Iff.rfl⟩

def someCore : ScCore := ⟨0x40, fun _ => 5, ⟨0, 0, 0, 0, 0, 0, 0, 0⟩⟩

/-- `div x0, x1, x2` has no destination to clear. -/
theorem undecoded_noOp_divX0 : NoOp someCore 0x0220c033 :=
  ((undecoded_noOp_iff 0x0220c033 ⟨by decide, by decide, by decide, by decide⟩ someCore).1).mpr
    (by decide)

/-- `div x3, x1, x2` clears x3. -/
theorem undecoded_div_writes :
    Undecoded 0x0220c1b3 ∧ ¬ NoOp someCore 0x0220c1b3 ∧ ¬ PipelinedNoOp someCore 0x0220c1b3 ∧
      (someCore.posedge ⟨false, false, 0x0220c1b3, true, 0, true, false⟩).regfile 3 = 0 := by
  have undecoded : Undecoded 0x0220c1b3 := ⟨by decide, by decide, by decide, by decide⟩
  refine ⟨undecoded, ?_, ?_, by decide⟩
  · rw [undecoded.noOp_iff]
    decide
  · rw [undecoded.pipelinedNoOp_iff]
    decide

end RiscvSoc.Cpu.UnknownWord
