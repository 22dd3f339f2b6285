/- GID: RiscvSoc/Cpu/Pipeline
   generality: G
   utility: model
   digest: The five-stage core, one definition per stage signal and one clock-edge function. -/

import RiscvSoc.Cpu.Datapath

set_option autoImplicit false
set_option relaxedAutoImplicit false

namespace RiscvSoc.Cpu.Pipeline

open RiscvSoc.Cpu.Decoder
open RiscvSoc.Cpu.Datapath

structure IfId where
  instr : Word := 0
  pc : Word := 0
  valid : Bool := false
  deriving DecidableEq

/-- `id_ctrl_bus`, unpacked. -/
structure Ctrl where
  op : OpFlags := {}
  isLoad : Bool := false
  isSInstr : Bool := false
  rdValid : Bool := false
  isCsr : Bool := false
  csrOptype : BitVec 2 := 0
  isEcall : Bool := false
  isEbreak : Bool := false
  isMret : Bool := false
  deriving DecidableEq

structure IdEx where
  rd : Reg := 0
  ctrl : Ctrl := {}
  imm : Word := 0
  src1Value : Word := 0
  src2Value : Word := 0
  pc : Word := 0
  valid : Bool := false
  csrAddr : CsrAddr := 0
  deriving DecidableEq

structure ExMem where
  result : Word := 0
  src2Value : Word := 0
  rd : Reg := 0
  isLoad : Bool := false
  isSInstr : Bool := false
  isLb : Bool := false
  isLh : Bool := false
  isLw : Bool := false
  isLbu : Bool := false
  isLhu : Bool := false
  isSb : Bool := false
  isSh : Bool := false
  isSw : Bool := false
  wrEn : Bool := false
  valid : Bool := false
  isCsr : Bool := false
  csrOptype : BitVec 2 := 0
  csrAddr : CsrAddr := 0
  deriving DecidableEq

structure MemWb where
  wrData : Word := 0
  rd : Reg := 0
  wrEn : Bool := false
  valid : Bool := false
  isCsr : Bool := false
  csrOptype : BitVec 2 := 0
  csrAddr : CsrAddr := 0
  csrOpVal : Word := 0
  deriving DecidableEq

/-- The registers of `riscv_core`. The defaults of the four pipeline registers are the values
they take on reset, on a flush and as a bubble. -/
@[ext] structure Core where
  pc : Word
  ifId : IfId
  idEx : IdEx
  exMem : ExMem
  memWb : MemWb
  csr : CsrFile
  regfile : RegFile

namespace IdEx

def result (x : IdEx) : Word :=
  aluResult x.ctrl.op x.ctrl.isLoad x.ctrl.isSInstr x.src1Value x.src2Value x.imm x.pc

def wrEn (x : IdEx) : Bool := if x.rd = 0 then false else x.ctrl.rdValid

def takenBr (x : IdEx) : Bool := Datapath.takenBr x.ctrl.op x.src1Value x.src2Value

def brTgtPc (x : IdEx) : Word := x.pc + x.imm
def jalrTgtPc (x : IdEx) : Word := x.src1Value + x.imm

def isPriv (x : IdEx) : Bool := x.ctrl.isEcall || x.ctrl.isEbreak || x.ctrl.isMret

def flushBase (x : IdEx) : Bool :=
  x.takenBr || x.ctrl.op.isJal || x.ctrl.op.isJalr || x.isPriv

/-- EX hands its instruction to MEM; there is no flush input here. -/
def toExMem (x : IdEx) : ExMem where
  result := x.result
  src2Value := x.src2Value
  rd := x.rd
  isLoad := x.ctrl.isLoad
  isSInstr := x.ctrl.isSInstr
  isLb := x.ctrl.op.isLb
  isLh := x.ctrl.op.isLh
  isLw := x.ctrl.op.isLw
  isLbu := x.ctrl.op.isLbu
  isLhu := x.ctrl.op.isLhu
  isSb := x.ctrl.op.isSb
  isSh := x.ctrl.op.isSh
  isSw := x.ctrl.op.isSw
  wrEn := x.wrEn
  valid := x.valid
  isCsr := x.ctrl.isCsr
  csrOptype := x.ctrl.csrOptype
  csrAddr := x.csrAddr

end IdEx

namespace ExMem

def byteOff (x : ExMem) : BitVec 2 := x.result.extractLsb' 0 2

/-- The MEM stage outputs; the strobes are gated by the valid bit and by nothing else. -/
def dataPort (x : ExMem) : DataPort where
  addr := x.result
  wdata := storeData x.src2Value x.byteOff
  we := x.isSInstr && x.valid
  byteena := storeMask x.isSb x.isSh x.isSw x.byteOff
  re := x.isLoad && x.valid

def wrData (x : ExMem) (ldData : Word) : Word :=
  if x.isLoad then ldExtracted x.isLb x.isLh x.isLbu x.isLhu x.byteOff ldData else x.result

def toMemWb (x : ExMem) (ldData : Word) : MemWb where
  wrData := x.wrData ldData
  rd := x.rd
  wrEn := x.wrEn
  valid := x.valid
  isCsr := x.isCsr
  csrOptype := x.csrOptype
  csrAddr := x.csrAddr
  csrOpVal := x.src2Value

/-- The slot holds a CSR instruction addressing `a`. -/
def writesCsr (x : ExMem) (a : CsrAddr) : Bool := x.valid && x.isCsr && x.csrAddr == a

end ExMem

/-- mip bit 7 mirrors `timer_irq`; the other bits are storage. -/
def csrMipRead (mip : Word) (timerIrq : Bool) : Word :=
  mip.extractLsb' 8 24 ++ BitVec.ofBool timerIrq ++ mip.extractLsb' 0 7

def csrRdata (c : CsrFile) (timerIrq : Bool) (a : CsrAddr) : Word :=
  { c with mip := csrMipRead c.mip timerIrq }.read a

namespace MemWb

/-- The value the CSR instruction in WB writes. -/
def csrNewVal (x : MemWb) (c : CsrFile) (timerIrq : Bool) : Word :=
  Datapath.csrNewVal x.csrOptype (csrRdata c timerIrq x.csrAddr) x.csrOpVal

def wbData (x : MemWb) (c : CsrFile) (timerIrq : Bool) : Word :=
  if x.isCsr then csrRdata c timerIrq x.csrAddr else x.wrData

/-- The CSR commit of an unhalted edge. -/
def commitCsr (x : MemWb) (c : CsrFile) (timerIrq : Bool) : CsrFile :=
  if x.isCsr && x.valid then c.write x.csrAddr (x.csrNewVal c timerIrq) else c

/-- The register file write port on an unhalted edge. -/
def commitReg (x : MemWb) (c : CsrFile) (timerIrq : Bool) (r : RegFile) : RegFile :=
  if x.wrEn && x.rd != 0 && x.valid then r.set x.rd (x.wbData c timerIrq) else r

def writesCsr (x : MemWb) (a : CsrAddr) : Bool := x.valid && x.isCsr && x.csrAddr == a

/-- It does so with an operand that can change the register: a set or clear of no bits cannot. -/
def altersCsr (x : MemWb) (a : CsrAddr) : Bool :=
  x.writesCsr a && (x.csrOptype == 0b00 || x.csrOpVal != 0)

end MemWb

/-- Trap entry writes mstatus[7] <= mstatus[3] and mstatus[3] <= 0, reading the old value
and overriding only these two bits of a CSR commit on the same edge. -/
def stackMie (old new : Word) : Word :=
  new.extractLsb' 8 24 ++ old.extractLsb' 3 1 ++ new.extractLsb' 4 3 ++ 0#1 ++ new.extractLsb' 0 3

def unstackMie (old new : Word) : Word :=
  new.extractLsb' 8 24 ++ 1#1 ++ new.extractLsb' 4 3 ++ old.extractLsb' 7 1 ++ new.extractLsb' 0 3

namespace Core

/-- The state a reset edge leaves: pc and pipeline registers cleared, CSRs and registers kept. -/
def reset (csr : CsrFile) (regfile : RegFile) : Core :=
  { pc := 0, ifId := {}, idEx := {}, exMem := {}, memWb := {}, csr, regfile }

/-- pc as driven on `imem_addr`: reset clears it at once, between the clock edges. -/
def imemAddr (s : Core) (rst : Bool) : Word := if rst then 0 else s.pc

def dataPort (s : Core) : DataPort := s.exMem.dataPort

def irqTaken (s : Core) (timerIrq : Bool) : Bool :=
  s.csr.mstatus.getLsbD 3 && s.csr.mie.getLsbD 7 && timerIrq && !s.idEx.isPriv

def exFlush (s : Core) (timerIrq : Bool) : Bool := s.idEx.flushBase || s.irqTaken timerIrq

/-- A CSR instruction addressing `a` somewhere behind ID. -/
def csrInFlight (s : Core) (a : CsrAddr) : Bool :=
  (s.idEx.valid && s.idEx.ctrl.isCsr && s.idEx.csrAddr == a) ||
  (s.exMem.valid && s.exMem.isCsr && s.exMem.csrAddr == a) ||
  (s.memWb.valid && s.memWb.isCsr && s.memWb.csrAddr == a)

def privCsrAddr (s : Core) : CsrAddr := if isMret s.ifId.instr then aMepc else aMtvec

def privHazard (s : Core) (timerIrq : Bool) : Bool :=
  (isEcall s.ifId.instr || isEbreak s.ifId.instr || isMret s.ifId.instr ||
    s.irqTaken timerIrq) && s.csrInFlight s.privCsrAddr

/-- A register write of `r` somewhere behind ID. -/
def regInFlight (s : Core) (r : Reg) : Bool :=
  (s.idEx.valid && s.idEx.wrEn && s.idEx.rd == r) ||
  (s.exMem.valid && s.exMem.wrEn && s.exMem.rd == r) ||
  (s.memWb.valid && s.memWb.wrEn && s.memWb.rd == r)

def idStall (s : Core) (timerIrq : Bool) : Bool :=
  s.ifId.valid && !s.exFlush timerIrq &&
    (s.privHazard timerIrq ||
      (rs1Valid s.ifId.instr && rs1 s.ifId.instr != 0 && s.regInFlight (rs1 s.ifId.instr)) ||
      (rs2Valid s.ifId.instr && rs2 s.ifId.instr != 0 && s.regInFlight (rs2 s.ifId.instr)))

def ifWait (i : CoreIn) : Bool := !i.halt && !i.imemVld
def memWait (s : Core) (i : CoreIn) : Bool := s.dataPort.req && !i.dmemVld
def frontStall (s : Core) (i : CoreIn) : Bool := s.idStall i.timerIrq || ifWait i

def nextPc (s : Core) (timerIrq : Bool) : Word :=
  if s.irqTaken timerIrq then s.csr.mtvec
  else if s.idEx.takenBr || s.idEx.ctrl.op.isJal then s.idEx.brTgtPc
  else if s.idEx.ctrl.op.isJalr then s.idEx.jalrTgtPc
  else if s.idEx.ctrl.isEcall || s.idEx.ctrl.isEbreak then s.csr.mtvec
  else if s.idEx.ctrl.isMret then s.csr.mepc
  else s.pc + 4

def idCtrlBus (instr : Word) : Ctrl where
  op := opFlags instr
  isLoad := Decoder.isLoad instr
  isSInstr := Decoder.isSInstr instr
  rdValid := Decoder.rdValid instr
  isCsr := Decoder.isCsr instr
  csrOptype := Decoder.csrOptype instr
  isEcall := Decoder.isEcall instr
  isEbreak := Decoder.isEbreak instr
  isMret := Decoder.isMret instr

def toIdEx (s : Core) : IdEx :=
  let instr := s.ifId.instr
  let src1Value := s.regfile.port (rs1 instr)
  let opVal := if (csrFlags instr).isImmediate then zimm instr else src1Value
  { rd := Decoder.rd instr
    ctrl := idCtrlBus instr
    imm := imm instr
    src1Value := src1Value
    src2Value := if Decoder.isCsr instr then opVal else s.regfile.port (rs2 instr)
    pc := s.ifId.pc
    valid := s.ifId.valid
    csrAddr := Decoder.csrAddr instr }

/-- A trap resolves in EX on this edge. -/
def trapEntry (s : Core) (i : CoreIn) : Bool :=
  !i.halt && !s.memWait i &&
    (s.idEx.ctrl.isEcall || s.idEx.ctrl.isEbreak || s.irqTaken i.timerIrq)

/-- An MRET resolves in EX on this edge. -/
def mretCommit (s : Core) (i : CoreIn) : Bool :=
  !i.halt && !s.memWait i && s.idEx.ctrl.isMret

/-- The CSR block: the WB commit first, then the later nonblocking assignments of a trap entry
or MRET resolving in EX, which win on the registers and bits they name. -/
def nextCsr (s : Core) (i : CoreIn) : CsrFile :=
  let c := if i.halt then s.csr else s.memWb.commitCsr s.csr i.timerIrq
  if s.trapEntry i then
    { c with
      mepc := s.idEx.pc
      mcause := if s.irqTaken i.timerIrq then 0x80000007
        else if s.idEx.ctrl.isEcall then 11 else 3
      mstatus := stackMie s.csr.mstatus c.mstatus }
  else if s.mretCommit i then { c with mstatus := unstackMie s.csr.mstatus c.mstatus }
  else c

/-- One clock edge. Only pc and the four pipeline registers have a reset. -/
def posedge (s : Core) (i : CoreIn) : Core where
  pc :=
    if i.rst then 0
    else if i.halt then s.pc
    else if s.memWait i then s.pc
    else if s.exFlush i.timerIrq then s.nextPc i.timerIrq
    else if s.frontStall i then s.pc
    else s.nextPc i.timerIrq
  ifId :=
    if i.rst then {}
    else if i.halt then s.ifId
    else if s.memWait i then s.ifId
    else if s.exFlush i.timerIrq then {}
    else if s.frontStall i then s.ifId
    else { instr := i.imemRdata, pc := s.pc, valid := true }
  idEx :=
    if i.rst then {}
    else if i.halt then s.idEx
    else if s.memWait i then s.idEx
    else if s.exFlush i.timerIrq then {}
    else if s.frontStall i then {}
    else s.toIdEx
  exMem :=
    if i.rst then {}
    else if i.halt then s.exMem
    else if s.memWait i then s.exMem
    else s.idEx.toExMem
  memWb :=
    if i.rst then {}
    else if i.halt then s.memWb
    else if s.memWait i then {}
    else s.exMem.toMemWb i.ldData
  csr := s.nextCsr i
  regfile := if i.halt then s.regfile else s.memWb.commitReg s.csr i.timerIrq s.regfile

end Core

end RiscvSoc.Cpu.Pipeline
