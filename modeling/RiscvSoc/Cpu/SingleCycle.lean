/- GID: RiscvSoc/Cpu/SingleCycle
   generality: G
   utility: model
   digest: The frozen single-cycle core, one instruction per unstalled clock edge. -/

import RiscvSoc.Cpu.Datapath

set_option autoImplicit false
set_option relaxedAutoImplicit false

namespace RiscvSoc.Cpu.SingleCycle

open RiscvSoc.Cpu.Decoder
open RiscvSoc.Cpu.Datapath

/-- The registers of `riscv_core_single_cycle`. -/
@[ext] structure ScCore where
  pc : Word
  regfile : RegFile
  csr : CsrFile

namespace ScCore

/-- Reset acts on pc at once, between the clock edges. -/
def live (s : ScCore) (rst : Bool) : ScCore := if rst then { s with pc := 0 } else s

def src1Value (s : ScCore) (instr : Word) : Word := s.regfile.port (rs1 instr)
def src2Value (s : ScCore) (instr : Word) : Word := s.regfile.port (rs2 instr)

def result (s : ScCore) (instr : Word) : Word :=
  aluResult (opFlags instr) (isLoad instr) (isSInstr instr)
    (s.src1Value instr) (s.src2Value instr) (imm instr) s.pc

def byteOff (s : ScCore) (instr : Word) : BitVec 2 := (s.result instr).extractLsb' 0 2

/-- The data memory interface; the strobes are gated neither by halt nor by stall. -/
def dataPort (s : ScCore) (instr : Word) : DataPort where
  addr := s.result instr
  wdata := storeData (s.src2Value instr) (s.byteOff instr)
  we := isSInstr instr
  byteena := storeMask (opFlags instr).isSb (opFlags instr).isSh (opFlags instr).isSw
    (s.byteOff instr)
  re := isLoad instr

def csrRdata (s : ScCore) (instr : Word) : Word := s.csr.read (csrAddr instr)

def opVal (s : ScCore) (instr : Word) : Word :=
  if (csrFlags instr).isImmediate then zimm instr else s.src1Value instr

def csrWdata (s : ScCore) (instr : Word) : Word :=
  let f := csrFlags instr
  if f.isCsrrw || f.isCsrrwi then s.opVal instr
  else if f.isCsrrs || f.isCsrrsi then s.csrRdata instr ||| s.opVal instr
  else if f.isCsrrc || f.isCsrrci then s.csrRdata instr &&& ~~~s.opVal instr
  else 0

def wrData (s : ScCore) (instr ldData : Word) : Word :=
  if isCsr instr then s.csrRdata instr
  else if isLoad instr then
    ldExtracted (opFlags instr).isLb (opFlags instr).isLh (opFlags instr).isLbu
      (opFlags instr).isLhu (s.byteOff instr) ldData
  else s.result instr

def wrEn (instr : Word) : Bool := if rd instr = 0 then false else rdValid instr

def takenBr (s : ScCore) (instr : Word) : Bool :=
  Datapath.takenBr (opFlags instr) (s.src1Value instr) (s.src2Value instr)

def nextPc (s : ScCore) (instr : Word) : Word :=
  if s.takenBr instr || (opFlags instr).isJal then s.pc + imm instr
  else if (opFlags instr).isJalr then s.src1Value instr + imm instr
  else if isEcall instr || isEbreak instr then s.csr.mtvec
  else if isMret instr then s.csr.mepc
  else s.pc + 4

def nextCsr (s : ScCore) (instr : Word) : CsrFile :=
  if isCsr instr then s.csr.write (csrAddr instr) (s.csrWdata instr)
  else if isEcall instr || isEbreak instr then
    { s.csr with mepc := s.pc, mcause := if isEcall instr then 11 else 3 }
  else s.csr

def nextRegfile (s : ScCore) (instr ldData : Word) : RegFile :=
  if wrEn instr && rd instr != 0 then s.regfile.set (rd instr) (s.wrData instr ldData)
  else s.regfile

def stall (s : ScCore) (i : CoreIn) : Bool :=
  (!i.halt && !i.imemVld) || ((s.dataPort i.imemRdata).req && !i.dmemVld)

/-- One clock edge. The CSR file and the register file have no reset. -/
def posedge (s : ScCore) (i : CoreIn) : ScCore :=
  let s := s.live i.rst
  let run := !i.halt && !s.stall i
  { pc := if i.rst then 0 else if run then s.nextPc i.imemRdata else s.pc
    csr := if run then s.nextCsr i.imemRdata else s.csr
    regfile := if run then s.nextRegfile i.imemRdata i.ldData else s.regfile }

end ScCore

end RiscvSoc.Cpu.SingleCycle
