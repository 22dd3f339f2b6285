/- GID: RiscvSoc/Host/RegDebugger
   generality: G
   utility: model
   digest: The host's end of the debug link: the methods of RegDebugger over a serial port. -/

import RiscvSoc.Cpu.Decoder
import RiscvSoc.Memory.ByteLanes
import Mathlib.Algebra.Group.Int.Defs

set_option autoImplicit false
set_option relaxedAutoImplicit false

namespace RiscvSoc.Host.RegDebugger

open RiscvSoc.Cpu.Decoder
open RiscvSoc.Memory.ByteLanes

/-- The exceptions the methods raise. -/
inductive HostError where
  | valueError (message : String)
  | structError
  | ioError (message : String)
  deriving DecidableEq

/-- A serial port: what was written to it, and what comes in before a read times out. -/
structure Serial where
  written : List Byte
  incoming : List Byte
  deriving DecidableEq

abbrev HostM := ExceptT HostError (StateM Serial)

def write (data : List Byte) : HostM Unit :=
  modify fun s => { s with written := s.written ++ data }

/-- `ser.read(n)`: fewer bytes when the timeout cuts it short. -/
def read (n : ℕ) : HostM (List Byte) :=
  modifyGet fun s => (s.incoming.take n, { s with incoming := s.incoming.drop n })

/-- The integers `struct.pack('<I', _)` accepts. -/
def word32 (x : ℤ) : Option Word :=
  if 0 ≤ x ∧ x < 2 ^ 32 then some (BitVec.ofInt 32 x) else none

/-- The integers `struct.pack('<H', _)` accepts. -/
def word16 (x : ℤ) : Option (BitVec 16) :=
  if 0 ≤ x ∧ x < 2 ^ 16 then some (BitVec.ofInt 16 x) else none

def packI (x : ℤ) : HostM (List Byte) :=
  match word32 x with
  | some w => return wordBytes w
  | none => throw .structError

def packH (x : ℤ) : HostM (List Byte) :=
  match word16 x with
  | some h => return halfBytes h
  | none => throw .structError

/-- `struct.unpack('<I', raw)[0]` of four bytes. -/
def unpackI (raw : List Byte) : Word := raw.getD 3 0 ++ raw.getD 2 0 ++ raw.getD 1 0 ++ raw.getD 0 0

theorem unpackI_wordBytes (w : Word) : unpackI (wordBytes w) = w := mergeBytes_full 0 w

def cmdHalt : Byte := 0x01
def cmdResume : Byte := 0x02
def cmdReadReg : Byte := 0x04
def cmdReadPc : Byte := 0x05
def cmdReadAll : Byte := 0x06
def cmdWriteMem : Byte := 0x07
def cmdReadMem : Byte := 0x08
def cmdReadCsr : Byte := 0x09
def cmdReadMmio : Byte := 0x0A

def readWord : HostM Word := do
  let raw ← read 4
  if raw.length ≠ 4 then
    throw (.ioError s!"Timeout waiting for 4-byte reply, got {raw.length} bytes")
  else return unpackI raw

def halt : HostM Unit := write [cmdHalt]
def resume : HostM Unit := write [cmdResume]

def readReg (idx : ℤ) : HostM Word :=
  if 0 ≤ idx ∧ idx ≤ 31 then do
    write [cmdReadReg, BitVec.ofInt 8 idx]
    readWord
  else throw (.valueError "register index must be 0-31")

def readPc : HostM Word := do
  write [cmdReadPc]
  readWord

def readAll : HostM (List Word × Word) := do
  write [cmdReadAll]
  let regs ← (List.range 32).mapM fun _ => readWord
  let pc ← readWord
  return (regs, pc)

def writeMem (addr data : ℤ) : HostM Unit := do
  let a ← packI addr
  let d ← packI data
  write (cmdWriteMem :: (a ++ d))

def readMem (addr : ℤ) : HostM Word := do
  let a ← packI addr
  write (cmdReadMem :: a)
  readWord

def readMemRange (addr n : ℤ) : HostM (List Word) :=
  (List.range n.toNat).mapM fun i : ℕ => readMem (addr + 4 * i)

def readCsr (addr : ℤ) : HostM Word := do
  let a ← packH addr
  write (cmdReadCsr :: a)
  readWord

def readMmio (addr : ℤ) : HostM Word := do
  let a ← packI addr
  write (cmdReadMmio :: a)
  readWord

/-- HALT, then one WRITE_MEM a word. -/
def loadProgram (words : List ℤ) (baseAddr : ℤ) : HostM Unit := do
  halt
  words.zipIdx.forM fun p => writeMem (baseAddr + 4 * p.2) p.1

/-- A call of one of the methods. -/
inductive Call where
  | halt
  | readReg (idx : ℤ)
  | readPc
  | readAll
  | writeMem (addr data : ℤ)
  | readMem (addr : ℤ)
  | readMemRange (addr n : ℤ)
  | readCsr (addr : ℤ)
  | readMmio (addr : ℤ)
  | loadProgram (words : List ℤ) (baseAddr : ℤ)

/-- What a call returns. -/
inductive Value where
  | none
  | word (w : Word)
  | words (ws : List Word)
  | dump (regs : List Word) (pc : Word)
  deriving DecidableEq

namespace Call

def exec : Call → HostM Value
  | halt => do RegDebugger.halt; return .none
  | readReg idx => return .word (← RegDebugger.readReg idx)
  | readPc => return .word (← RegDebugger.readPc)
  | readAll => do
    let (regs, pc) ← RegDebugger.readAll
    return .dump regs pc
  | writeMem addr data => do RegDebugger.writeMem addr data; return .none
  | readMem addr => return .word (← RegDebugger.readMem addr)
  | readMemRange addr n => return .words (← RegDebugger.readMemRange addr n)
  | readCsr addr => return .word (← RegDebugger.readCsr addr)
  | readMmio addr => return .word (← RegDebugger.readMmio addr)
  | loadProgram words baseAddr => do RegDebugger.loadProgram words baseAddr; return .none

end Call

/-- A sequence of calls; an exception ends its own call only. -/
def execAll : List Call → StateM Serial (List (Except HostError Value))
  | [] => return []
  | c :: cs => do
    let result ← c.exec.run
    let results ← execAll cs
    return result :: results

end RiscvSoc.Host.RegDebugger
