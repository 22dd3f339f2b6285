/- GID: RiscvSoc/Peripherals/VgaFramebuffer
   generality: G
   utility: model
   digest: The double-buffered framebuffer: timing counters, swap control, buffers and scanout. -/

import RiscvSoc.Cpu.Decoder
import Mathlib.Algebra.Group.Nat.Defs
import Mathlib.Data.Nat.Log
import Mathlib.Logic.Function.Basic

set_option autoImplicit false
set_option relaxedAutoImplicit false

namespace RiscvSoc.Peripherals.VgaFramebuffer

open RiscvSoc.Cpu.Decoder

section Buffer

/-- `dp_ram_sync_read` as the framebuffer instantiates it: 600 words, port B read-only. -/
structure SyncRam where
  mem : ℕ → Word
  doutA : Word
  doutB : Word

def SyncRam.posedge (s : SyncRam) (weA : Bool) (addrA : ℕ) (dinA : Word) (addrB : ℕ) : SyncRam where
  mem := if weA then Function.update s.mem addrA dinA else s.mem
  doutA := s.mem addrA
  doutB := s.mem addrB

end Buffer

def hCountMax : ℕ := 800
def vCountMax : ℕ := 525
def bufWords : ℕ := 600

/-- The registers of `vga_framebuffer`. -/
structure VgaRegs where
  pixelEn : Bool
  clkDivCount : ℕ
  hCount : ℕ
  vCount : ℕ
  doubleBufEn : Bool
  frontBuf : Bool
  swapPending : Bool
  buf0 : SyncRam
  buf1 : SyncRam
  selD : Bool
  reD : Bool
  addrD : BitVec 16
  drawBufSelD : Bool
  peekBufSelD : Bool
  bufWordAddrValidD : Bool
  rdata : Word
  monoPixel : Bool

/-- The bus slice of the framebuffer. -/
structure VgaIn where
  rst : Bool
  sel : Bool
  addr : BitVec 16
  wdata : Word
  we : Bool
  re : Bool

/-- Bits of the divider, `$clog2(CLK_DIV)` but at least one. -/
def clkDivBits (clkDiv : ℕ) : ℕ := if 1 < clkDiv then Nat.clog 2 clkDiv else 1

namespace VgaRegs

def hsync (s : VgaRegs) : Bool := !decide (s.hCount < 96)
def vsync (s : VgaRegs) : Bool := !decide (s.vCount < 2)

def active (s : VgaRegs) : Bool :=
  decide (144 ≤ s.hCount ∧ s.hCount < 784) && decide (35 ≤ s.vCount ∧ s.vCount < 515)

def screenX (s : VgaRegs) : ℕ := if s.active then s.hCount - 144 else 0
def screenY (s : VgaRegs) : ℕ := if s.active then s.vCount - 35 else 0

/-- `screen_x[9:2]` and `screen_y[8:2]`. -/
def fbX (s : VgaRegs) : ℕ := s.screenX / 4 % 2 ^ 8
def fbY (s : VgaRegs) : ℕ := s.screenY / 4 % 2 ^ 7

def frameStart (s : VgaRegs) : Bool := s.hCount == 0 && s.vCount == 0

def drawBufSel (s : VgaRegs) : Bool := if s.doubleBufEn then !s.frontBuf else s.frontBuf
def peekBufSel (s : VgaRegs) : Bool := !s.drawBufSel

/-- `addr[11:2]`, which addresses 1024 words of which 600 exist. -/
def bufWordAddr (addr : BitVec 16) : ℕ := (addr.extractLsb' 2 10).toNat
def bufWordAddrValid (addr : BitVec 16) : Bool := decide (bufWordAddr addr < bufWords)
def cpuWordAddr (addr : BitVec 16) : ℕ := if bufWordAddrValid addr then bufWordAddr addr else 0

def isCtrlWrite (i : VgaIn) : Bool := i.sel && i.we && i.addr == 0x0000

def isDrawWrite (i : VgaIn) : Bool :=
  i.sel && i.we && i.addr.extractLsb' 12 4 == 0x1 && bufWordAddrValid i.addr

def buf0WeCpu (s : VgaRegs) (i : VgaIn) : Bool := isDrawWrite i && !s.drawBufSel
def buf1WeCpu (s : VgaRegs) (i : VgaIn) : Bool := isDrawWrite i && s.drawBufSel

def scanWordAddr (s : VgaRegs) : ℕ := (s.fbY * 5 + s.fbX / 32) % 2 ^ 10
def scanBit (s : VgaRegs) : ℕ := s.fbX % 32
def scanWord (s : VgaRegs) : Word := if s.frontBuf then s.buf1.doutB else s.buf0.doutB

/-- The read mux; its decode is one clock behind the bus, as the buffer data is. -/
def readMux (s : VgaRegs) : Word :=
  if s.selD && s.reD then
    if s.addrD.extractLsb' 12 4 = 0x0 then
      if s.addrD.extractLsb' 2 2 = 0b00 then (BitVec.ofBool s.doubleBufEn).setWidth 32
      else if s.addrD.extractLsb' 2 2 = 0b01 then (BitVec.ofBool s.swapPending).setWidth 32
      else 0
    else if s.addrD.extractLsb' 12 4 = 0x1 then
      if s.bufWordAddrValidD then if s.drawBufSelD then s.buf1.doutA else s.buf0.doutA else 0
    else if s.addrD.extractLsb' 12 4 = 0x2 then
      if s.bufWordAddrValidD then if s.peekBufSelD then s.buf1.doutA else s.buf0.doutA else 0
    else 0
  else 0

/-- One edge of the module's own clock. The buffers have no reset. -/
def posedge (clkDiv : ℕ) (s : VgaRegs) (i : VgaIn) : VgaRegs where
  pixelEn := !i.rst && s.clkDivCount == clkDiv - 1
  clkDivCount :=
    if i.rst || s.clkDivCount == clkDiv - 1 then 0
    else (s.clkDivCount + 1) % 2 ^ clkDivBits clkDiv
  hCount :=
    if i.rst then 0
    else if s.pixelEn then if s.hCount = hCountMax - 1 then 0 else (s.hCount + 1) % 2 ^ 10
    else s.hCount
  vCount :=
    if i.rst then 0
    else if s.pixelEn && s.hCount == hCountMax - 1 then
      if s.vCount = vCountMax - 1 then 0 else (s.vCount + 1) % 2 ^ 10
    else s.vCount
  doubleBufEn :=
    if i.rst then false else if isCtrlWrite i then i.wdata.getLsbD 0 else s.doubleBufEn
  frontBuf :=
    if i.rst then false
    else if s.frameStart && s.swapPending then !s.frontBuf else s.frontBuf
  -- the frame boundary comes last and wins over a request of the same edge
  swapPending :=
    if i.rst then false
    else if s.frameStart && s.swapPending then false
    else if isCtrlWrite i && i.wdata.getLsbD 1 && i.wdata.getLsbD 0 then true
    else s.swapPending
  buf0 := s.buf0.posedge (s.buf0WeCpu i) (cpuWordAddr i.addr) i.wdata s.scanWordAddr
  buf1 := s.buf1.posedge (s.buf1WeCpu i) (cpuWordAddr i.addr) i.wdata s.scanWordAddr
  selD := !i.rst && i.sel
  reD := !i.rst && i.re
  addrD := if i.rst then 0 else i.addr
  drawBufSelD := !i.rst && s.drawBufSel
  peekBufSelD := !i.rst && s.peekBufSel
  bufWordAddrValidD := !i.rst && bufWordAddrValid i.addr
  rdata := if i.rst then 0 else s.readMux
  monoPixel := !i.rst && s.active && s.scanWord.getLsbD s.scanBit

/-- A write strobe without the select is no write. -/
theorem posedge_unwritten (clkDiv : ℕ) (s : VgaRegs) (i : VgaIn)
    (unwritten : (i.sel && i.we) = false) :
    s.posedge clkDiv i = s.posedge clkDiv { i with we := false } := by
  have ctrl : isCtrlWrite i = isCtrlWrite { i with we := false } := by
    simp [isCtrlWrite, unwritten]
  have draw : isDrawWrite i = isDrawWrite { i with we := false } := by
    simp [isDrawWrite, unwritten]
  simp only [posedge, ctrl, buf0WeCpu, buf1WeCpu, draw]

end VgaRegs

end RiscvSoc.Peripherals.VgaFramebuffer
