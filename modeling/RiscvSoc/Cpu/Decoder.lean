/- GID: RiscvSoc/Cpu/Decoder
   generality: G
   utility: model
   digest: The instruction decoder both cores share, line for line. -/

import Mathlib.Data.List.Basic

set_option autoImplicit false
set_option relaxedAutoImplicit false

namespace RiscvSoc.Cpu.Decoder

abbrev Word := BitVec 32
abbrev Reg := BitVec 5
abbrev CsrAddr := BitVec 12

def rs1 (instr : Word) : Reg := instr.extractLsb' 15 5
def rs2 (instr : Word) : Reg := instr.extractLsb' 20 5
def funct3 (instr : Word) : BitVec 3 := instr.extractLsb' 12 3
def rd (instr : Word) : Reg := instr.extractLsb' 7 5
def opcode (instr : Word) : BitVec 7 := instr.extractLsb' 0 7
def csrAddr (instr : Word) : CsrAddr := instr.extractLsb' 20 12
def zimm (instr : Word) : Word := (instr.extractLsb' 15 5).setWidth 32

/-- The instruction format, as set by `Decoder_Logic`. -/
structure Format where
  isU : Bool := false
  isI : Bool := false
  isR : Bool := false
  isS : Bool := false
  isB : Bool := false
  isJ : Bool := false
  isCsr : Bool := false
  deriving DecidableEq

/-- `casez (instr[6:2])`: neither the two low opcode bits nor funct3 take part. -/
def decoderLogic (op : BitVec 5) : Format :=
  if op = 0b00101 ∨ op = 0b01101 then { isU := true }
  else if op = 0b00000 ∨ op = 0b00001 then { isI := true }
  else if op = 0b00100 ∨ op = 0b00110 then { isI := true }
  else if op = 0b11001 then { isI := true }
  else if op = 0b01011 then { isR := true }
  else if op = 0b01100 then { isR := true }
  else if op = 0b01110 then { isR := true }
  else if op = 0b10100 then { isR := true }
  else if op = 0b01000 ∨ op = 0b01001 then { isS := true }
  else if op = 0b11000 then { isB := true }
  else if op = 0b11011 then { isJ := true }
  else if op = 0b11100 then { isCsr := true }
  else {}

/-- The operation flags that travel down the pipeline on `id_ctrl_bus`. -/
structure OpFlags where
  isLui : Bool := false
  isAuipc : Bool := false
  isJal : Bool := false
  isJalr : Bool := false
  isBeq : Bool := false
  isBne : Bool := false
  isBlt : Bool := false
  isBge : Bool := false
  isBltu : Bool := false
  isBgeu : Bool := false
  isAddi : Bool := false
  isSlti : Bool := false
  isSltiu : Bool := false
  isXori : Bool := false
  isOri : Bool := false
  isAndi : Bool := false
  isSlli : Bool := false
  isSrli : Bool := false
  isSrai : Bool := false
  isAdd : Bool := false
  isSub : Bool := false
  isSll : Bool := false
  isSlt : Bool := false
  isSltu : Bool := false
  isXor : Bool := false
  isSrl : Bool := false
  isSra : Bool := false
  isOr : Bool := false
  isAnd : Bool := false
  isMul : Bool := false
  isMulh : Bool := false
  isMulhsu : Bool := false
  isMulhu : Bool := false
  isLb : Bool := false
  isLh : Bool := false
  isLw : Bool := false
  isLbu : Bool := false
  isLhu : Bool := false
  isSb : Bool := false
  isSh : Bool := false
  isSw : Bool := false
  deriving DecidableEq

/-- The CSR mnemonics, consumed in decode and not carried any further. -/
structure CsrFlags where
  isCsrrw : Bool := false
  isCsrrs : Bool := false
  isCsrrc : Bool := false
  isCsrrwi : Bool := false
  isCsrrsi : Bool := false
  isCsrrci : Bool := false
  deriving DecidableEq

/-- The outputs of `casez (dec_bits)`. -/
structure DecFlags where
  op : OpFlags := {}
  csr : CsrFlags := {}
  deriving DecidableEq

/-- One pattern of `casez (dec_bits)` with `dec_bits = {instr[25], instr[30], funct3, opcode}`;
a bit the pattern leaves open is `none`. -/
structure CasezRow where
  b25 : Option Bool
  b30 : Option Bool
  funct3 : Option (BitVec 3)
  opcode : BitVec 7
  flags : DecFlags

def CasezRow.hits (r : CasezRow) (b25 b30 : Bool) (funct3 : BitVec 3) (opcode : BitVec 7) : Bool :=
  r.b25.all (· == b25) && r.b30.all (· == b30) && r.funct3.all (· == funct3) && r.opcode == opcode

/-- The patterns of `casez (dec_bits)`, in the order of the source. -/
def decBitsRows : List CasezRow := [
  -- U-type
  ⟨none, none, none, 0b0110111, { op := { isLui := true } }⟩,
  ⟨none, none, none, 0b0010111, { op := { isAuipc := true } }⟩,
  -- jumps
  ⟨none, none, none, 0b1101111, { op := { isJal := true } }⟩,
  ⟨none, none, none, 0b1100111, { op := { isJalr := true } }⟩,
  -- branches
  ⟨none, none, some 0b000, 0b1100011, { op := { isBeq := true } }⟩,
  ⟨none, none, some 0b001, 0b1100011, { op := { isBne := true } }⟩,
  ⟨none, none, some 0b100, 0b1100011, { op := { isBlt := true } }⟩,
  ⟨none, none, some 0b101, 0b1100011, { op := { isBge := true } }⟩,
  ⟨none, none, some 0b110, 0b1100011, { op := { isBltu := true } }⟩,
  ⟨none, none, some 0b111, 0b1100011, { op := { isBgeu := true } }⟩,
  -- I-type ALU
  ⟨none, none, some 0b000, 0b0010011, { op := { isAddi := true } }⟩,
  ⟨none, none, some 0b010, 0b0010011, { op := { isSlti := true } }⟩,
  ⟨none, none, some 0b011, 0b0010011, { op := { isSltiu := true } }⟩,
  ⟨none, none, some 0b100, 0b0010011, { op := { isXori := true } }⟩,
  ⟨none, none, some 0b110, 0b0010011, { op := { isOri := true } }⟩,
  ⟨none, none, some 0b111, 0b0010011, { op := { isAndi := true } }⟩,
  -- shifts
  ⟨none, some false, some 0b001, 0b0010011, { op := { isSlli := true } }⟩,
  ⟨none, some false, some 0b101, 0b0010011, { op := { isSrli := true } }⟩,
  ⟨none, some true, some 0b101, 0b0010011, { op := { isSrai := true } }⟩,
  -- R-type
  ⟨some false, some false, some 0b000, 0b0110011, { op := { isAdd := true } }⟩,
  ⟨some false, some true, some 0b000, 0b0110011, { op := { isSub := true } }⟩,
  ⟨some false, some false, some 0b001, 0b0110011, { op := { isSll := true } }⟩,
  ⟨some false, some false, some 0b010, 0b0110011, { op := { isSlt := true } }⟩,
  ⟨some false, some false, some 0b011, 0b0110011, { op := { isSltu := true } }⟩,
  ⟨some false, some false, some 0b100, 0b0110011, { op := { isXor := true } }⟩,
  ⟨some false, some false, some 0b101, 0b0110011, { op := { isSrl := true } }⟩,
  ⟨some false, some true, some 0b101, 0b0110011, { op := { isSra := true } }⟩,
  ⟨some false, some false, some 0b110, 0b0110011, { op := { isOr := true } }⟩,
  ⟨some false, some false, some 0b111, 0b0110011, { op := { isAnd := true } }⟩,
  -- RV32M
  ⟨some true, some false, some 0b000, 0b0110011, { op := { isMul := true } }⟩,
  ⟨some true, some false, some 0b001, 0b0110011, { op := { isMulh := true } }⟩,
  ⟨some true, some false, some 0b010, 0b0110011, { op := { isMulhsu := true } }⟩,
  ⟨some true, some false, some 0b011, 0b0110011, { op := { isMulhu := true } }⟩,
  -- loads
  ⟨none, none, some 0b000, 0b0000011, { op := { isLb := true } }⟩,
  ⟨none, none, some 0b001, 0b0000011, { op := { isLh := true } }⟩,
  ⟨none, none, some 0b010, 0b0000011, { op := { isLw := true } }⟩,
  ⟨none, none, some 0b100, 0b0000011, { op := { isLbu := true } }⟩,
  ⟨none, none, some 0b101, 0b0000011, { op := { isLhu := true } }⟩,
  -- stores
  ⟨none, none, some 0b000, 0b0100011, { op := { isSb := true } }⟩,
  ⟨none, none, some 0b001, 0b0100011, { op := { isSh := true } }⟩,
  ⟨none, none, some 0b010, 0b0100011, { op := { isSw := true } }⟩,
  -- CSR accesses; funct3 = 000 belongs to `Priv_Decode`
  ⟨none, none, some 0b001, 0b1110011, { csr := { isCsrrw := true } }⟩,
  ⟨none, none, some 0b010, 0b1110011, { csr := { isCsrrs := true } }⟩,
  ⟨none, none, some 0b011, 0b1110011, { csr := { isCsrrc := true } }⟩,
  ⟨none, none, some 0b101, 0b1110011, { csr := { isCsrrwi := true } }⟩,
  ⟨none, none, some 0b110, 0b1110011, { csr := { isCsrrsi := true } }⟩,
  ⟨none, none, some 0b111, 0b1110011, { csr := { isCsrrci := true } }⟩]

/-- The first pattern that hits sets its flag; no hit leaves every flag at zero. -/
def decBitsCase (b25 b30 : Bool) (funct3 : BitVec 3) (opcode : BitVec 7) : DecFlags :=
  ((decBitsRows.find? fun r => r.hits b25 b30 funct3 opcode).map (·.flags)).getD {}

def OpFlags.isLoad (f : OpFlags) : Bool := f.isLb || f.isLh || f.isLw || f.isLbu || f.isLhu

def CsrFlags.isCsr (f : CsrFlags) : Bool :=
  f.isCsrrw || f.isCsrrs || f.isCsrrc || f.isCsrrwi || f.isCsrrsi || f.isCsrrci

/-- The immediate forms, which take `zimm` in place of rs1. -/
def CsrFlags.isImmediate (f : CsrFlags) : Bool := f.isCsrrwi || f.isCsrrsi || f.isCsrrci

def format (instr : Word) : Format := decoderLogic (instr.extractLsb' 2 5)

def decFlags (instr : Word) : DecFlags :=
  decBitsCase (instr.getLsbD 25) (instr.getLsbD 30) (funct3 instr) (opcode instr)

def opFlags (instr : Word) : OpFlags := (decFlags instr).op
def csrFlags (instr : Word) : CsrFlags := (decFlags instr).csr

def isLoad (instr : Word) : Bool := (opFlags instr).isLoad
def isSInstr (instr : Word) : Bool := (format instr).isS
def isCsr (instr : Word) : Bool := (csrFlags instr).isCsr

def isEcall (instr : Word) : Bool :=
  opcode instr == 0b1110011 && funct3 instr == 0b000 && csrAddr instr == 0x000
def isEbreak (instr : Word) : Bool :=
  opcode instr == 0b1110011 && funct3 instr == 0b000 && csrAddr instr == 0x001
def isMret (instr : Word) : Bool :=
  opcode instr == 0b1110011 && funct3 instr == 0b000 && csrAddr instr == 0x302

def rs1Valid (instr : Word) : Bool :=
  let f := format instr
  f.isR || f.isS || f.isB || f.isI || (f.isCsr && !(csrFlags instr).isImmediate)

def rs2Valid (instr : Word) : Bool :=
  let f := format instr
  f.isR || f.isS || f.isB

def rdValid (instr : Word) : Bool :=
  let f := format instr
  f.isR || f.isI || f.isU || f.isJ || isCsr instr

def imm (instr : Word) : Word :=
  let f := format instr
  if f.isI then (instr.extractLsb' 20 12).signExtend 32
  else if f.isS then (instr.extractLsb' 25 7 ++ instr.extractLsb' 7 5).signExtend 32
  else if f.isU then instr.extractLsb' 12 20 ++ 0#12
  else if f.isB then
    (instr.extractLsb' 31 1 ++ instr.extractLsb' 7 1 ++ instr.extractLsb' 25 6 ++
      instr.extractLsb' 8 4 ++ 0#1).signExtend 32
  else if f.isJ then
    (instr.extractLsb' 31 1 ++ instr.extractLsb' 12 8 ++ instr.extractLsb' 20 1 ++
      instr.extractLsb' 25 6 ++ instr.extractLsb' 21 4 ++ 0#1).signExtend 32
  else 0

def csrOptype (instr : Word) : BitVec 2 :=
  let f := csrFlags instr
  if f.isCsrrw || f.isCsrrwi then 0b00 else if f.isCsrrs || f.isCsrrsi then 0b01 else 0b10

end RiscvSoc.Cpu.Decoder
