/- GID: RiscvSoc/Fpga/RiscvTop
   generality: G
   utility: model
   digest: The board: either core, BRAM, UART, framebuffer, timer and debug UART on one bus. -/

import RiscvSoc.Cpu.Pipeline
import RiscvSoc.Cpu.SingleCycle
import RiscvSoc.Memory.DpRam
import RiscvSoc.Peripherals.Timer
import RiscvSoc.Peripherals.VgaFramebuffer
import RiscvSoc.Peripherals.DebugUart
import RiscvSoc.Clocked.Trajectory

set_option autoImplicit false
set_option relaxedAutoImplicit false

namespace RiscvSoc.Fpga.RiscvTop

open RiscvSoc.Clocked.Trajectory
open RiscvSoc.Cpu.Decoder
open RiscvSoc.Cpu.Datapath
open RiscvSoc.Cpu.Pipeline
open RiscvSoc.Cpu.SingleCycle
open RiscvSoc.Memory.ByteLanes
open RiscvSoc.Memory.DpRam
open RiscvSoc.Peripherals.Timer
open RiscvSoc.Peripherals.Uart
open RiscvSoc.Peripherals.VgaFramebuffer
open RiscvSoc.Peripherals.DebugUart

/-- `CORE_TYPE`, with the registers of the core it elaborates. -/
inductive CpuCore where
  | pipelined (core : Core)
  | singleCycle (core : ScCore)

namespace CpuCore

def imemAddr (c : CpuCore) (rst : Bool) : Word :=
  match c with
  | .pipelined s => s.imemAddr rst
  | .singleCycle s => (s.live rst).pc

/-- The data port. The single-cycle core decodes the word it is fetching. -/
def dataPort (c : CpuCore) (rst : Bool) (imemRdata : Word) : DataPort :=
  match c with
  | .pipelined s => s.dataPort
  | .singleCycle s => (s.live rst).dataPort imemRdata

/-- One edge of the divided clock, at `clk_per_bit` of both UARTs. -/
def posedge (c : CpuCore) (i : CoreIn) : CpuCore :=
  match c with
  | .pipelined s => .pipelined (s.posedge i)
  | .singleCycle s => .singleCycle (s.posedge i)

def regfile (c : CpuCore) : RegFile :=
  match c with
  | .pipelined s => s.regfile
  | .singleCycle s => s.regfile

def dbgRegData (c : CpuCore) (dbgRegAddr : Reg) : Word := c.regfile.port dbgRegAddr

/-- The pipelined core shows `timer_irq` in mip, the single-cycle core has no such input. -/
def dbgCsrData (c : CpuCore) (timerIrq : Bool) (dbgCsrAddr : CsrAddr) : Word :=
  match c with
  | .pipelined s => csrRdata s.csr timerIrq dbgCsrAddr
  | .singleCycle s => s.csr.read dbgCsrAddr

/-- A halted core does not move, whatever its other inputs do. -/
theorem posedge_halted (c : CpuCore) {i : CoreIn} (rst : i.rst = false) (halt : i.halt = true) :
    c.posedge i = c := by
  cases c with
  | pipelined s =>
    refine congrArg CpuCore.pipelined ?_
    ext1 <;> simp [Core.posedge, Core.nextCsr, Core.trapEntry, Core.mretCommit, rst, halt]
  | singleCycle s =>
    refine congrArg CpuCore.singleCycle ?_
    ext1 <;> simp [ScCore.posedge, ScCore.live, rst, halt]

end CpuCore

def zeroCsr : CsrFile where
  mstatus := 0
  mie := 0
  mtvec := 0
  mscratch := 0
  mepc := 0
  mcause := 0
  mtval := 0
  mip := 0

def CpuCore.pipelinedZero : CpuCore := .pipelined (Core.reset zeroCsr fun _ => 0)
def CpuCore.singleCycleZero : CpuCore := .singleCycle ⟨0, fun _ => 0, zeroCsr⟩

/-- The registers of `riscv_top`, all but those of the debug UART's receiver. -/
@[ext] structure Soc where
  core : CpuCore
  imemAddrPrev : Word
  dmemAddrPrev : Word
  bram : Bram
  uart : UartPair
  vga : VgaRegs
  timer : TimerRegs
  dbg : DbgUart

/-- Its inputs in one clock: `rst` and `KEY[1]`, the program UART's line, and what the debug
UART's receiver shows. -/
structure SocIn where
  rst : Bool := false
  key1 : Bool := true
  uartRx : Bool := true
  rxDone : Bool := false
  rxData : Byte := 0

/-- The address ranges of the decoder. -/
def inBram (a : Word) : Bool := a.extractLsb' 16 16 == 0x0000
def inUart (a : Word) : Bool := a.extractLsb' 4 28 == 0x1000000
def inVga (a : Word) : Bool := a.extractLsb' 16 16 == 0x2000
def inTimer (a : Word) : Bool := a.extractLsb' 16 16 == 0x3000

/-- `addr[3:2]`. -/
def regIndex (a : Word) : BitVec 2 := a.extractLsb' 2 2

namespace Soc

section Signals

variable (s : Soc) (i : SocIn)

/-- The halt input of the core. -/
def halt : Bool := s.dbg.fsm.halt && i.key1

def imemAddr : Word := s.core.imemAddr i.rst
def imemRdata : Word := s.bram.qA
def dataPort : DataPort := s.core.dataPort i.rst s.imemRdata
def dmemAddr : Word := (s.dataPort i).addr
def dmemWdata : Word := (s.dataPort i).wdata
def dmemWe : Bool := (s.dataPort i).we
def dmemByteena : BitVec 4 := (s.dataPort i).byteena
def dmemRe : Bool := (s.dataPort i).re
def dmemReq : Bool := (s.dataPort i).req

def periphAddr : Word := if s.dbg.fsm.dbgMmioValid then s.dbg.fsm.mmioAddr else s.dmemAddr i

def bramSel : Bool := inBram (s.dmemAddr i)
def uartSel : Bool := inUart (s.periphAddr i)
def vgaSel : Bool := inVga (s.dmemAddr i)
def timerSel : Bool := inTimer (s.periphAddr i)

/-- Read data counts as valid once its address has stood still for a clock. -/
def imemRvalid : Bool := s.imemAddr i == s.imemAddrPrev
def dmemRvalid : Bool := s.dmemReq i && s.dmemAddr i == s.dmemAddrPrev

/-- The select follows the steered address, the register decode and the data the core's. -/
def uartTxEn : Bool := s.uartSel i && s.dmemWe i && regIndex (s.dmemAddr i) == 0b00
def uartTxData : Byte := if s.uartTxEn i then (s.dmemWdata i).extractLsb' 0 8 else 0

def uartRdData : Word :=
  let reg := regIndex (s.periphAddr i)
  if reg = 0b00 then (s.uartTxData i).setWidth 32
  else if reg = 0b01 then s.uart.rx.rxOut.setWidth 32
  else if reg = 0b10 then
    (BitVec.ofBool s.uart.rx.rxDone ++ BitVec.ofBool s.uart.tx.busy).setWidth 32
  else 0

def timerIn : TimerIn where
  rst := i.rst
  sel := s.timerSel i
  addr := (s.periphAddr i).extractLsb' 0 4
  wdata := s.dmemWdata i
  we := s.dmemWe i
  re := s.dmemRe i || s.dbg.fsm.dbgMmioValid

def timerRdData : Word := s.timer.rdata (s.timerIn i)
def timerIrq : Bool := s.timer.irq

def vgaIn : VgaIn where
  rst := i.rst
  sel := s.vgaSel i
  addr := (s.dmemAddr i).extractLsb' 0 16
  wdata := s.dmemWdata i
  we := s.dmemWe i
  re := s.dmemRe i

/-- The framebuffer runs off the undivided clock: it takes one edge between two clock edges of
the rest, which therefore sample it in this state, and one together with them. -/
def vgaMid : VgaRegs := s.vga.posedge 2 (s.vgaIn i)

def bramRdData : Word := s.bram.qB

def ldData : Word :=
  if s.bramSel i then s.bramRdData
  else if s.uartSel i then s.uartRdData i
  else if s.vgaSel i then (s.vgaMid i).rdata
  else if s.timerSel i then s.timerRdData i
  else 0

def dbgMmioRdata : Word :=
  if s.uartSel i then s.uartRdData i
  else if s.timerSel i then s.timerRdData i
  else 0

/-- Port A fetches; port B serves the core, or the debug UART while it accesses memory. -/
def bramIn : DpRamIn where
  addressA := wordIndex (s.imemAddr i)
  dataA := 0
  wrenA := false
  byteenaA := 0b1111
  addressB := wordIndex (if s.dbg.fsm.dbgMemValid then s.dbg.fsm.memAddr else s.dmemAddr i)
  dataB := if s.dbg.fsm.dbgMemValid then s.dbg.fsm.memWdata else s.dmemWdata i
  wrenB := if s.dbg.fsm.dbgMemValid then s.dbg.fsm.dbgMemWe else s.dmemWe i && s.bramSel i
  byteenaB := if s.dbg.fsm.dbgMemValid then 0b1111 else s.dmemByteena i

def coreIn : CoreIn where
  rst := i.rst
  halt := s.halt i
  imemRdata := s.imemRdata
  imemVld := s.imemRvalid i
  ldData := s.ldData i
  dmemVld := s.dmemRvalid i
  timerIrq := s.timerIrq

def debugIn : DebugIn where
  rst := i.rst
  rxDone := i.rxDone
  rxData := i.rxData
  dbgRegData := s.core.dbgRegData s.dbg.fsm.dbgRegAddr
  pcDbg := s.imemAddr i
  dbgCsrData := s.core.dbgCsrData s.timerIrq s.dbg.fsm.dbgCsrAddr
  dbgMemRdata := s.bramRdData
  dbgMmioRdata := s.dbgMmioRdata i

end Signals

/-- One edge of the divided clock, at `clk_per_bit` of both UARTs. -/
def posedge (clkPerBit : ℕ) (s : Soc) (i : SocIn) : Soc where
  core := s.core.posedge (s.coreIn i)
  imemAddrPrev := s.imemAddr i
  dmemAddrPrev := s.dmemAddr i
  bram := s.bram.posedge (s.bramIn i)
  uart :=
    { tx := s.uart.tx.posedge uartParams clkPerBit i.rst (s.uartTxData i) (s.uartTxEn i)
      rx := s.uart.rx.posedge uartParams clkPerBit i.rst i.uartRx }
  vga := (s.vgaMid i).posedge 2 (s.vgaIn i)
  timer := s.timer.posedge (s.timerIn i)
  dbg := s.dbg.posedge clkPerBit (s.debugIn i)

/-- A configured board before its first clock: a program in BRAM and every register zero. -/
def powerUp (core : CpuCore) (program : List Word) : Soc where
  core
  imemAddrPrev := 0
  dmemAddrPrev := 0
  bram := { mem := fun a => program.getD a.toNat 0, addressAR := 0, addressBR := 0 }
  uart := { tx := idleTx, rx := idleRx }
  vga :=
    { pixelEn := false, clkDivCount := 0, hCount := 0, vCount := 0, doubleBufEn := false
      frontBuf := false, swapPending := false
      buf0 := { mem := fun _ => 0, doutA := 0, doutB := 0 }
      buf1 := { mem := fun _ => 0, doutA := 0, doutB := 0 }
      selD := false, reD := false, addrD := 0, drawBufSelD := false, peekBufSelD := false
      bufWordAddrValidD := false, rdata := 0, monoPixel := false }
  timer := {}
  dbg := { fsm := .reset 0, tx := idleTx }

/-- The state at clock `n` of a run. -/
abbrev run (clkPerBit : ℕ) (s : Soc) (input : ℕ → SocIn) : ℕ → Soc :=
  trajectory (posedge clkPerBit) s input

theorem dmemAddrPrev_succ (clkPerBit : ℕ) (s : Soc) (input : ℕ → SocIn) (n : ℕ) :
    (run clkPerBit s input (n + 1)).dmemAddrPrev =
      (run clkPerBit s input n).dmemAddr (input n) := rfl

end Soc

/-- `CLK_PER_BIT`: 115200 baud at 25 MHz. -/
def clkPerBit : ℕ := 217

/-- The registers of `riscv_top`. -/
structure Top where
  soc : Soc
  dbgRx : UartRx

/-- The pins of the board: both keys are low when pressed, SW[0] connects the serial pin to one
of the two UARTs. -/
structure Pins where
  key0 : Bool := true
  key1 : Bool := true
  sw0 : Bool := false
  arduinoIo0 : Bool := true

def Pins.rst (i : Pins) : Bool := !i.key0

namespace Top

def socIn (s : Top) (i : Pins) : SocIn where
  rst := i.rst
  key1 := i.key1
  uartRx := if i.sw0 then true else i.arduinoIo0
  rxDone := s.dbgRx.rxDone
  rxData := s.dbgRx.rxOut

def posedge (s : Top) (i : Pins) : Top where
  soc := s.soc.posedge clkPerBit (s.socIn i)
  dbgRx :=
    s.dbgRx.posedge uartParams clkPerBit i.rst (if i.sw0 then i.arduinoIo0 else true)

/-- The board at clock `n` of a run. -/
abbrev run (s : Top) (pins : ℕ → Pins) : ℕ → Top := trajectory posedge s pins

/-- What the debug UART's receiver and the pins make of a run for the rest of the board. -/
def socInput (s : Top) (pins : ℕ → Pins) (n : ℕ) : SocIn := (run s pins n).socIn (pins n)

end Top

end RiscvSoc.Fpga.RiscvTop
