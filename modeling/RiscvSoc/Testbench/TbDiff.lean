/- GID: RiscvSoc/Testbench/TbDiff
   generality: G
   utility: model
   digest: The differential testbench: each core with its own instruction and data memory. -/

import RiscvSoc.Clocked.Trajectory
import RiscvSoc.Cpu.Commit
import RiscvSoc.Memory.ByteLanes

set_option autoImplicit false
set_option relaxedAutoImplicit false

namespace RiscvSoc.Testbench.TbDiff

open RiscvSoc.Clocked.Trajectory
open RiscvSoc.Cpu.Datapath
open RiscvSoc.Cpu.Decoder (Word Reg CsrAddr)
open RiscvSoc.Cpu.Pipeline
open RiscvSoc.Cpu.SingleCycle
open RiscvSoc.Cpu.Commit
open RiscvSoc.Memory.ByteLanes

/-- `imem` and `dmem` are indexed by address bits [31:2]. -/
abbrev Memory := BitVec 30 → Word

def wordIndex (addr : Word) : BitVec 30 := addr.extractLsb' 2 30

/-- `always_ff @(posedge clk) if (dmem_we)`, with one byte enable for each lane. -/
def clockDmem (dmem : Memory) (p : DataPort) : Memory :=
  if p.we then writeMasked dmem (wordIndex p.addr) p.wdata p.byteena else dmem

/-- What the bench is free to choose in a clock: halt, the two valid strobes, and the words
on the read buses while their strobe is low. -/
structure Cycle where
  halt : Bool := false
  imemVld : Bool := true
  dmemVld : Bool := true
  imemIdle : Word := 0
  ldIdle : Word := 0

/-- The core under test with its data memory. -/
structure Dut where
  core : Core
  dmem : Memory

namespace Dut

def input (imem : Memory) (s : Dut) (c : Cycle) : CoreIn where
  halt := c.halt
  imemRdata := if c.imemVld then imem (wordIndex s.core.pc) else c.imemIdle
  imemVld := c.imemVld
  ldData := if c.dmemVld then s.dmem (wordIndex s.core.dataPort.addr) else c.ldIdle
  dmemVld := c.dmemVld

def posedge (imem : Memory) (s : Dut) (c : Cycle) : Dut where
  core := s.core.posedge (s.input imem c)
  dmem := clockDmem s.dmem s.core.dataPort

def regWrites (imem : Memory) (s : Dut) (c : Cycle) : List (Reg × Word) :=
  regWrite s.core (s.input imem c)

def csrWrites (imem : Memory) (s : Dut) (c : Cycle) : List (CsrAddr × Word) :=
  csrWrite s.core (s.input imem c)

def stores (imem : Memory) (s : Dut) (c : Cycle) : List Store :=
  storeLeaving s.core (s.input imem c)

end Dut

/-- The golden model with its own data memory; `halt` is tied low and both strobes high. -/
structure Golden where
  core : ScCore
  dmem : Memory

namespace Golden

/-- The instruction at pc. -/
def instr (imem : Memory) (g : Golden) : Word := imem (wordIndex g.core.pc)

/-- `ld_data_ref`. -/
def ldData (imem : Memory) (g : Golden) : Word :=
  g.dmem (wordIndex (g.core.dataPort (g.instr imem)).addr)

def input (imem : Memory) (g : Golden) : CoreIn where
  imemRdata := g.instr imem
  imemVld := true
  ldData := g.ldData imem
  dmemVld := true

def posedge (imem : Memory) (g : Golden) (_ : Unit) : Golden where
  core := g.core.posedge (g.input imem)
  dmem := clockDmem g.dmem (g.core.dataPort (g.instr imem))

def regWrites (imem : Memory) (g : Golden) (_ : Unit) : List (Reg × Word) :=
  refRegWrite g.core (g.instr imem) (g.ldData imem)

def csrWrites (imem : Memory) (g : Golden) (_ : Unit) : List (CsrAddr × Word) :=
  refCsrWrite g.core (g.instr imem)

def stores (imem : Memory) (g : Golden) (_ : Unit) : List Store :=
  refStore g.core (g.instr imem)

/-- The golden core is never stalled here, so every clock executes one instruction. -/
theorem posedge_core (imem : Memory) (g : Golden) :
    (g.posedge imem ()).core =
      { pc := g.core.nextPc (g.instr imem)
        csr := g.core.nextCsr (g.instr imem)
        regfile := g.core.nextRegfile (g.instr imem) (g.ldData imem) } := by
  simp [posedge, input, ScCore.posedge, ScCore.live, ScCore.stall]

end Golden

/-- What both cores start from when reset is released. -/
structure Start where
  regfile : RegFile
  csr : CsrFile
  dmem : Memory

def Start.dut (s : Start) : Dut where
  core := Core.reset s.csr s.regfile
  dmem := s.dmem

def Start.golden (s : Start) : Golden where
  core := { pc := 0, csr := s.csr, regfile := s.regfile }
  dmem := s.dmem

/-- The core under test `n` clocks after reset. -/
abbrev dutAfter (imem : Memory) (s : Start) (cycles : ℕ → Cycle) : ℕ → Dut :=
  trajectory (Dut.posedge imem) s.dut cycles

/-- The golden model `n` clocks, that is `n` instructions, after reset. -/
abbrev goldenAfter (imem : Memory) (s : Start) : ℕ → Golden :=
  trajectory (Golden.posedge imem) s.golden fun _ => ()

abbrev dutRegWrites (imem : Memory) (s : Start) (cycles : ℕ → Cycle) : ℕ → List (Reg × Word) :=
  emitted (Dut.posedge imem) (Dut.regWrites imem) s.dut cycles

abbrev dutCsrWrites (imem : Memory) (s : Start) (cycles : ℕ → Cycle) : ℕ → List (CsrAddr × Word) :=
  emitted (Dut.posedge imem) (Dut.csrWrites imem) s.dut cycles

abbrev dutStores (imem : Memory) (s : Start) (cycles : ℕ → Cycle) : ℕ → List Store :=
  emitted (Dut.posedge imem) (Dut.stores imem) s.dut cycles

abbrev goldenRegWrites (imem : Memory) (s : Start) : ℕ → List (Reg × Word) :=
  emitted (Golden.posedge imem) (Golden.regWrites imem) s.golden fun _ => ()

abbrev goldenCsrWrites (imem : Memory) (s : Start) : ℕ → List (CsrAddr × Word) :=
  emitted (Golden.posedge imem) (Golden.csrWrites imem) s.golden fun _ => ()

abbrev goldenStores (imem : Memory) (s : Start) : ℕ → List Store :=
  emitted (Golden.posedge imem) (Golden.stores imem) s.golden fun _ => ()

end RiscvSoc.Testbench.TbDiff
