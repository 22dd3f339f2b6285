/- GID: RiscvSoc/Cpu/Architecture
   generality: G
   utility: support
   digest: The architectural state and the execution of one instruction on it. -/

import RiscvSoc.Cpu.DecoderFacts
import RiscvSoc.Cpu.SingleCycle
import RiscvSoc.Memory.DpRam

set_option autoImplicit false
set_option relaxedAutoImplicit false

namespace RiscvSoc.Cpu.Architecture

open RiscvSoc.Cpu.Decoder
open RiscvSoc.Cpu.DecoderFacts
open RiscvSoc.Cpu.Datapath
open RiscvSoc.Cpu.SingleCycle
open RiscvSoc.Memory.ByteLanes
open RiscvSoc.Memory.DpRam

section Execution

/-- pc, register file and CSR file, and the one memory that holds code and data. -/
structure Arch where
  core : ScCore
  mem : BramAddr → Word

/-- What the core makes of an instruction, given the word at its data address. -/
def execute (c : ScCore) (instr ldData : Word) : ScCore where
  pc := c.nextPc instr
  csr := c.nextCsr instr
  regfile := c.nextRegfile instr ldData

def storeInto (p : DataPort) (m : BramAddr → Word) : BramAddr → Word :=
  if p.we then writeMasked m (wordIndex p.addr) p.wdata p.byteena else m

namespace Arch

def instr (a : Arch) : Word := a.mem (wordIndex a.core.pc)

def port (a : Arch) : DataPort := a.core.dataPort a.instr

/-- One instruction: the word at its data address is read, its store is written. -/
def step (a : Arch) : Arch where
  core := execute a.core a.instr (a.mem (wordIndex a.port.addr))
  mem := storeInto a.port a.mem

/-- The state after `n` instructions. -/
def after (a : Arch) : ℕ → Arch
  | 0 => a
  | n + 1 => after a.step n

end Arch

end Execution

section Ports

variable {c d : ScCore} {instr : Word} {p : DataPort} {m m' : BramAddr → Word}

theorem storeInto_again (p : DataPort) (m : BramAddr → Word) :
    storeInto p (storeInto p m) = storeInto p m := by
  unfold storeInto
  split_ifs
  · exact writeMasked_again _ _ _ _
  · rfl

/-- A store leaves every other word alone. -/
theorem storeInto_other {a : BramAddr} (other : p.we = true → wordIndex p.addr ≠ a) :
    storeInto p m a = m a := by
  unfold storeInto
  split_ifs with we
  · exact writeMasked_other _ _ _ (other we).symm
  · rfl

theorem storeInto_agree {u : Set BramAddr} (agree : AgreeOff u m m') (p : DataPort) :
    AgreeOff u (storeInto p m) (storeInto p m') := by
  unfold storeInto
  split_ifs
  · exact agree.writeMasked _ _ _
  · exact agree

theorem storeInto_idle (idle : p.we = false) (m : BramAddr → Word) : storeInto p m = m := by
  rw [storeInto, idle, if_neg Bool.false_ne_true]

private theorem rows_store : ∀ r ∈ decBitsRows,
    (decoderLogic (r.opcode.extractLsb' 2 5)).isS = true →
    r.flags.op = { isSb := true } ∨ r.flags.op = { isSh := true } ∨
      r.flags.op = { isSw := true } := by
  decide

private theorem result_store (store : isSInstr instr = true) :
    c.result instr = c.src1Value instr + imm instr := by
  have flags : opFlags instr = {} ∨ opFlags instr = { isSb := true } ∨
      opFlags instr = { isSh := true } ∨ opFlags instr = { isSw := true } := by
    rcases decFlags_cases instr with none | ⟨r, member, row, opc, -⟩
    · exact .inl (by rw [opFlags, none])
    · rw [isSInstr, format_opcode, opc] at store
      exact .inr (by rw [opFlags, row]; exact rows_store r member store)
  rcases flags with flags | flags | flags | flags <;>
    · rw [ScCore.result, isLoad, flags, store]
      rfl

/-- A store names the same word with the same data as long as the registers stay. -/
theorem dataPort_store (store : isSInstr instr = true) (same : d.regfile = c.regfile) :
    d.dataPort instr = c.dataPort instr := by
  have src1 : d.src1Value instr = c.src1Value instr := by
    rw [ScCore.src1Value, same, ScCore.src1Value]
  have src2 : d.src2Value instr = c.src2Value instr := by
    rw [ScCore.src2Value, same, ScCore.src2Value]
  have address : d.result instr = c.result instr := by
    rw [result_store store, result_store store, src1]
  simp only [ScCore.dataPort, ScCore.byteOff, address, src2]

/-- A store writes no register. -/
theorem regfile_store (store : isSInstr instr = true) (ldData : Word) :
    (execute c instr ldData).regfile = c.regfile := by
  have form : (format instr).isS = true := store
  have only : ∀ op : BitVec 5, (decoderLogic op).isS = true →
      (decoderLogic op).isR = false ∧ (decoderLogic op).isI = false ∧
        (decoderLogic op).isU = false ∧ (decoderLogic op).isJ = false ∧
        (decoderLogic op).isCsr = false := by
    decide
  obtain ⟨r, i, upper, j, csrForm⟩ := only _ form
  have notCsr : isCsr instr = false := by
    rw [← Bool.not_eq_true]
    intro csr
    have csrFormat : (format instr).isCsr = true := by rw [(of_isCsr csr).2.1]
    exact absurd (csrForm.symm.trans csrFormat) Bool.false_ne_true
  have off : rdValid instr = false := by
    simp only [rdValid, notCsr, Bool.or_false]
    rw [format, r, i, upper, j]
    rfl
  simp [execute, ScCore.nextRegfile, ScCore.wrEn, off]

/-- Only a load looks at the data it is given. -/
theorem execute_ldData {v w : Word} (same : isLoad instr = true → v = w) :
    execute c instr v = execute c instr w := by
  cases load : isLoad instr with
  | true => rw [same load]
  | false => simp [execute, ScCore.nextRegfile, ScCore.wrData, load]

/-- A load makes no store. -/
theorem we_of_load (load : isLoad instr = true) : (c.dataPort instr).we = false :=
  isSInstr_of_load load

end Ports

end RiscvSoc.Cpu.Architecture
