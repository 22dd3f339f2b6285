/- GID: RiscvSoc/Cpu/Datapath
   generality: G
   utility: model
   digest: ALU result mux, branch test, byte lanes and CSR file, written once for both cores. -/

import RiscvSoc.Cpu.Decoder

set_option autoImplicit false
set_option relaxedAutoImplicit false

namespace RiscvSoc.Cpu.Datapath

open RiscvSoc.Cpu.Decoder

/-- `{31'b0, a < b}`. -/
def sltuRslt (a b : Word) : Word := if a < b then 1 else 0

/-- `slt`/`slti`: on equal signs the unsigned order decides, else the sign of the first. -/
def sltRslt (a b : Word) : Word :=
  if a.msb = b.msb then sltuRslt a b else if a.msb then 1 else 0

/-- The low half of `sext_src1 >> shamt`. -/
def sraRslt (a : Word) (shamt : BitVec 5) : Word :=
  ((a.signExtend 64) >>> shamt.toNat).extractLsb' 0 32

def mulSsRslt (a b : Word) : BitVec 64 := a.signExtend 64 * b.signExtend 64
def mulSuRslt (a b : Word) : BitVec 64 := a.signExtend 64 * (b.setWidth 33).signExtend 64
def mulUuRslt (a b : Word) : BitVec 64 := a.setWidth 64 * b.setWidth 64

/-- The priority mux `ex_result` (`result` in the single-cycle core). -/
def aluResult (f : OpFlags) (load sInstr : Bool) (src1 src2 imm pc : Word) : Word :=
  if f.isAndi then src1 &&& imm
  else if f.isOri then src1 ||| imm
  else if f.isXori then src1 ^^^ imm
  else if f.isAddi then src1 + imm
  else if f.isSlli then src1 <<< (imm.extractLsb' 0 6).toNat
  else if f.isSrli then src1 >>> (imm.extractLsb' 0 6).toNat
  else if f.isAnd then src1 &&& src2
  else if f.isOr then src1 ||| src2
  else if f.isXor then src1 ^^^ src2
  else if f.isAdd then src1 + src2
  else if f.isSub then src1 - src2
  else if f.isSll then src1 <<< (src2.extractLsb' 0 5).toNat
  else if f.isSrl then src1 >>> (src2.extractLsb' 0 5).toNat
  else if f.isSltu then sltuRslt src1 src2
  else if f.isSltiu then sltuRslt src1 imm
  else if f.isLui then imm.extractLsb' 12 20 ++ 0#12
  else if f.isAuipc then pc + imm
  else if f.isJal then pc + 4
  else if f.isJalr then pc + 4
  else if f.isSlt then sltRslt src1 src2
  else if f.isSlti then sltRslt src1 imm
  else if f.isSra then sraRslt src1 (src2.extractLsb' 0 5)
  else if f.isSrai then sraRslt src1 (imm.extractLsb' 0 5)
  else if load then src1 + imm
  else if sInstr then src1 + imm
  else if f.isMul then (mulSsRslt src1 src2).extractLsb' 0 32
  else if f.isMulh then (mulSsRslt src1 src2).extractLsb' 32 32
  else if f.isMulhsu then (mulSuRslt src1 src2).extractLsb' 32 32
  else if f.isMulhu then (mulUuRslt src1 src2).extractLsb' 32 32
  else 0

/-- `ex_taken_br` (`taken_br` in the single-cycle core). -/
def takenBr (f : OpFlags) (src1 src2 : Word) : Bool :=
  if f.isBeq then src1 == src2
  else if f.isBne then src1 != src2
  else if f.isBlt then (decide (src1 < src2)) ^^ (src1.msb != src2.msb)
  else if f.isBge then (decide (src2 ≤ src1)) ^^ (src1.msb != src2.msb)
  else if f.isBltu then decide (src1 < src2)
  else if f.isBgeu then decide (src2 ≤ src1)
  else false

/-- Load extraction. Among the five widths only these four are tested; a word load takes
`ld_data` whole. -/
def ldExtracted (isLb isLh isLbu isLhu : Bool) (byteOff : BitVec 2) (ldData : Word) : Word :=
  let shifted := ldData >>> (byteOff.toNat * 8)
  if isLb then (shifted.extractLsb' 0 8).signExtend 32
  else if isLh then (shifted.extractLsb' 0 16).signExtend 32
  else if isLbu then (shifted.extractLsb' 0 8).setWidth 32
  else if isLhu then (shifted.extractLsb' 0 16).setWidth 32
  else ldData

def storeData (src2 : Word) (byteOff : BitVec 2) : Word := src2 <<< (byteOff.toNat * 8)

def storeMask (isSb isSh isSw : Bool) (byteOff : BitVec 2) : BitVec 4 :=
  if isSb then 0b0001#4 <<< byteOff.toNat
  else if isSh then 0b0011#4 <<< byteOff.toNat
  else if isSw then 0b1111#4
  else 0b0000#4

/-- What a core drives on its data memory port. -/
structure DataPort where
  addr : Word
  wdata : Word
  we : Bool
  byteena : BitVec 4
  re : Bool

def DataPort.req (p : DataPort) : Bool := p.we || p.re

/-- The clock-edge inputs of a core. `timerIrq` exists on the pipelined core only. -/
structure CoreIn where
  rst : Bool := false
  halt : Bool := false
  imemRdata : Word
  imemVld : Bool
  ldData : Word
  dmemVld : Bool
  timerIrq : Bool := false

abbrev RegFile := Reg → Word

def RegFile.port (r : RegFile) (i : Reg) : Word := if i = 0 then 0 else r i

def RegFile.set (r : RegFile) (i : Reg) (v : Word) : RegFile := fun j => if j = i then v else r j

@[ext] structure CsrFile where
  mstatus : Word
  mie : Word
  mtvec : Word
  mscratch : Word
  mepc : Word
  mcause : Word
  mtval : Word
  mip : Word
  deriving DecidableEq

/-- The eight implemented CSR addresses. -/
abbrev aMstatus : CsrAddr := 0x300
abbrev aMie : CsrAddr := 0x304
abbrev aMtvec : CsrAddr := 0x305
abbrev aMscratch : CsrAddr := 0x340
abbrev aMepc : CsrAddr := 0x341
abbrev aMcause : CsrAddr := 0x342
abbrev aMtval : CsrAddr := 0x343
abbrev aMip : CsrAddr := 0x344

/-- The read mux; misa, mhartid and everything else read as zero. -/
def CsrFile.read (c : CsrFile) (a : CsrAddr) : Word :=
  if a = aMstatus then c.mstatus
  else if a = aMie then c.mie
  else if a = aMtvec then c.mtvec
  else if a = aMscratch then c.mscratch
  else if a = aMepc then c.mepc
  else if a = aMcause then c.mcause
  else if a = aMtval then c.mtval
  else if a = aMip then c.mip
  else 0

def CsrFile.write (c : CsrFile) (a : CsrAddr) (v : Word) : CsrFile :=
  if a = aMstatus then { c with mstatus := v }
  else if a = aMie then { c with mie := v }
  else if a = aMtvec then { c with mtvec := v }
  else if a = aMscratch then { c with mscratch := v }
  else if a = aMepc then { c with mepc := v }
  else if a = aMcause then { c with mcause := v }
  else if a = aMtval then { c with mtval := v }
  else if a = aMip then { c with mip := v }
  else c

/-- The read-modify-write of a CSR instruction (`csr_new_val`). -/
def csrNewVal (optype : BitVec 2) (old opVal : Word) : Word :=
  if optype = 0b00 then opVal
  else if optype = 0b01 then old ||| opVal
  else old &&& ~~~opVal

end RiscvSoc.Cpu.Datapath
