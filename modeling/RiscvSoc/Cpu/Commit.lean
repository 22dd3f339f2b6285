/- GID: RiscvSoc/Cpu/Commit
   generality: G
   utility: model
   digest: The register writes, CSR writes and stores a core performs at a clock edge. -/

import RiscvSoc.Cpu.SingleCycle
import RiscvSoc.Cpu.Pipeline

set_option autoImplicit false
set_option relaxedAutoImplicit false

namespace RiscvSoc.Cpu.Commit

open RiscvSoc.Cpu.Decoder
open RiscvSoc.Cpu.Datapath
open RiscvSoc.Cpu.Pipeline
open RiscvSoc.Cpu.SingleCycle

/-- A store as the data memory sees it. -/
structure Store where
  addr : Word
  wdata : Word
  byteena : BitVec 4
  deriving DecidableEq

def DataPort.store (p : DataPort) : List Store :=
  if p.we then [⟨p.addr, p.wdata, p.byteena⟩] else []

/-- The register write WB commits on this edge, if any. -/
def regWrite (s : Core) (i : CoreIn) : List (Reg × Word) :=
  if !i.halt && (s.memWb.wrEn && s.memWb.rd != 0 && s.memWb.valid) then
    [(s.memWb.rd, s.memWb.wbData s.csr i.timerIrq)]
  else []

/-- The CSR write WB commits on this edge, if any. -/
def csrWrite (s : Core) (i : CoreIn) : List (CsrAddr × Word) :=
  if !i.halt && (s.memWb.isCsr && s.memWb.valid) then
    [(s.memWb.csrAddr, s.memWb.csrNewVal s.csr i.timerIrq)]
  else []

/-- The store that leaves MEM on this edge, if any. -/
def storeLeaving (s : Core) (i : CoreIn) : List Store :=
  if !i.halt && !s.memWait i then DataPort.store s.dataPort else []

/-- The same three for the single-cycle core on an unstalled edge. -/
def refRegWrite (s : ScCore) (instr ldData : Word) : List (Reg × Word) :=
  if ScCore.wrEn instr && rd instr != 0 then [(rd instr, s.wrData instr ldData)] else []

def refCsrWrite (s : ScCore) (instr : Word) : List (CsrAddr × Word) :=
  if isCsr instr then [(csrAddr instr, s.csrWdata instr)] else []

def refStore (s : ScCore) (instr : Word) : List Store := DataPort.store (s.dataPort instr)

end RiscvSoc.Cpu.Commit
