/- GID: RiscvSoc/Peripherals/SpiDisplay
   generality: G
   utility: model
   digest: The colour display behind the SPI slave: command bytes, two buffers, pixels. -/

import RiscvSoc.Peripherals.SpiSlave
import RiscvSoc.Peripherals.VgaRaster

set_option autoImplicit false
set_option relaxedAutoImplicit false

namespace RiscvSoc.Peripherals.SpiDisplay

open RiscvSoc.Peripherals.SpiSlave
open RiscvSoc.Peripherals.VgaRaster

def resX : ℕ := 320
def resY : ℕ := 240
def resDiv : ℕ := 2
def memDepth : ℕ := resX * resY
def clkDiv : ℕ := 2

abbrev Pixel := BitVec 8

/-- `dp_ram_sync_read` for pixels, port B read-only. -/
structure PixelRam where
  mem : ℕ → Pixel
  doutA : Pixel
  doutB : Pixel

def PixelRam.posedge (s : PixelRam) (weA : Bool) (addrA : ℕ) (dinA : Pixel) (addrB : ℕ) :
    PixelRam where
  mem := if weA then Function.update s.mem addrA dinA else s.mem
  doutA := s.mem addrA
  doutB := s.mem addrB

section Timing

/-- `vga`, whose counters are those of the framebuffer. -/
def vgaPosedge (rst : Bool) (r : Raster) : Raster :=
  if rst then ⟨false, 0, 0, 0⟩ else r.next clkDiv

def hSync (r : Raster) : Bool := !decide (r.hCount < 96)
def vSync (r : Raster) : Bool := !decide (r.vCount < 2)

def vgaActive (r : Raster) : Bool :=
  decide (r.hCount < 784 ∧ 143 < r.hCount) && decide (r.vCount < 515 ∧ 34 < r.vCount)

def vgaX (r : Raster) : ℕ := if vgaActive r then r.hCount - 144 else 0
def vgaY (r : Raster) : ℕ := if vgaActive r then r.vCount - 35 else 0

end Timing

/-- The registers of `vga_double_buf`. -/
structure DoubleBuf where
  currBuffer : Bool
  swapLatch : Bool
  swapDone : Bool
  timing : Raster
  ram0 : PixelRam
  ram1 : PixelRam

/-- The drawing side of `vga_double_buf`. -/
structure DrawIn where
  rst : Bool
  memAddr : ℕ
  din : Pixel
  wen : Bool
  swapBuf : Bool

namespace DoubleBuf

def memX (s : DoubleBuf) : ℕ := vgaX s.timing / resDiv % 2 ^ 9
def memY (s : DoubleBuf) : ℕ := vgaY s.timing / resDiv % 2 ^ 8
def addrB (s : DoubleBuf) : ℕ := (s.memX + s.memY * resX) % 2 ^ 17

def doutB (s : DoubleBuf) : Pixel := if s.currBuffer then s.ram0.doutB else s.ram1.doutB

/-- `vga_r`, `vga_g` and `vga_b`. -/
def colour (s : DoubleBuf) : BitVec 4 × BitVec 4 × BitVec 4 :=
  if vgaActive s.timing then
    (s.doutB.extractLsb' 4 2 ++ 0#2, s.doutB.extractLsb' 2 2 ++ 0#2,
      s.doutB.extractLsb' 0 2 ++ 0#2)
  else (0, 0, 0)

/-- One edge of `clk`. The memories have no reset. -/
def posedge (s : DoubleBuf) (i : DrawIn) : DoubleBuf where
  currBuffer :=
    if i.rst then false
    else if s.timing.frameStart && s.swapLatch then !s.currBuffer else s.currBuffer
  -- the frame boundary comes last and wins over a request of the same edge
  swapLatch := !i.rst && !(s.timing.frameStart && s.swapLatch) && (i.swapBuf || s.swapLatch)
  swapDone := !i.rst && (s.timing.frameStart && s.swapLatch)
  timing := vgaPosedge i.rst s.timing
  ram0 :=
    s.ram0.posedge (!s.currBuffer && i.wen) (if s.currBuffer then 0 else i.memAddr)
      (if s.currBuffer then 0 else i.din) s.addrB
  ram1 :=
    s.ram1.posedge (s.currBuffer && i.wen) (if s.currBuffer then i.memAddr else 0)
      (if s.currBuffer then i.din else 0) s.addrB

end DoubleBuf

/-- The registers of `vga_spi`. -/
structure VgaSpi where
  spi : Spi 8
  addrCount : ℕ
  addrDelay : Bool
  din : Pixel
  wen : Bool
  swapBuf : Bool
  buf : DoubleBuf

namespace VgaSpi

/-- `dout_spi[7]`, and the one command that is not an alignment. -/
def isControl (b : Pixel) : Bool := b.getLsbD 7
def isSwap (b : Pixel) : Bool := b.extractLsb' 0 7 == 0x01

def drawIn (s : VgaSpi) : DrawIn where
  rst := s.spi.rst
  memAddr := s.addrCount
  din := s.din
  wen := s.wen
  swapBuf := s.swapBuf

/-- One byte from the slave. The first pixel behind an alignment does not move the address. -/
def takeByte (s : VgaSpi) (b : Pixel) : VgaSpi :=
  if isControl b then
    if isSwap b then { s with swapBuf := true }
    else { s with addrCount := 0, addrDelay := false }
  else if memDepth - 1 ≤ s.addrCount then { s with din := b, wen := true, addrCount := 0 }
  else if s.addrDelay then
    { s with din := b, wen := true, addrCount := (s.addrCount + 1) % 2 ^ 17 }
  else { s with din := b, wen := true, addrDelay := true }

/-- One edge of `clk`, the slave apart. -/
def posedge (s : VgaSpi) : VgaSpi :=
  let t := { s with wen := false, swapBuf := false, buf := s.buf.posedge s.drawIn }
  if s.spi.rst then { t with addrCount := 0, addrDelay := false }
  else if s.spi.slave.dValid then t.takeByte s.spi.slave.dout
  else t

/-- One edge at the pins. The slave has nothing to send. -/
def react (s : VgaSpi) (e : Edge) : VgaSpi :=
  { (if e = .clk then s.posedge else s) with spi := s.spi.react 0 e }

end VgaSpi

end RiscvSoc.Peripherals.SpiDisplay
