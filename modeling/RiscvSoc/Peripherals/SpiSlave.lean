/- GID: RiscvSoc/Peripherals/SpiSlave
   generality: G
   utility: model
   digest: The SPI slave: a shift register on the bus clock and its words in the system clock. -/

import Mathlib.Algebra.Ring.Nat
import Mathlib.Data.Nat.Log

set_option autoImplicit false
set_option relaxedAutoImplicit false

namespace RiscvSoc.Peripherals.SpiSlave

/-- An edge at the pins. `clk` and `sclk` come from different boards, so edges arrive in any
order. -/
inductive Edge where
  | clk
  | sclkRise (mosi : Bool)
  | sclkFall
  | csRise
  | csFall
  | rstRise
  | rstFall
  deriving DecidableEq, Repr

/-- The registers of `spi_slave`. -/
structure Slave (w : ℕ) where
  shiftIn : BitVec w
  bitCount : ℕ
  capturedData : BitVec w
  dataReadyToggle : Bool
  shiftOut : BitVec w
  csNPrev : Bool
  toggleSync1 : Bool
  toggleSync2 : Bool
  toggleSync3 : Bool
  capturedSync1 : BitVec w
  capturedSync2 : BitVec w
  dout : BitVec w
  dValid : Bool
  deriving DecidableEq

namespace Slave

variable {w : ℕ}

/-- `{x[WIDTH-2:0], b}`. -/
def shifted (x : BitVec w) (b : Bool) : BitVec w := (x.concat b).setWidth w

/-- The branch of the shift register under `rst || cs_n`. -/
def deselect (s : Slave w) : Slave w :=
  { s with
    shiftIn := 0
    bitCount := 0
    dataReadyToggle := false
    capturedData := 0 }

/-- A rising edge of `sclk` with `cs_n` and `rst` low. -/
def shift (s : Slave w) (mosi : Bool) : Slave w :=
  if s.bitCount = w - 1 then
    { s with
      shiftIn := shifted s.shiftIn mosi
      bitCount := 0
      capturedData := shifted s.shiftIn mosi
      dataReadyToggle := !s.dataReadyToggle }
  else
    { s with
      shiftIn := shifted s.shiftIn mosi
      bitCount := (s.bitCount + 1) % 2 ^ (Nat.clog 2 w + 1) }

/-- A falling edge of `sclk` with `rst` low. -/
def shiftReply (s : Slave w) (csN : Bool) (din : BitVec w) : Slave w :=
  { s with
    csNPrev := csN
    shiftOut :=
      if !csN && s.csNPrev then din
      else if !csN then shifted s.shiftOut false
      else s.shiftOut }

def miso (s : Slave w) : Bool := s.shiftOut.msb

/-- The branches of the other two clocks under `rst`. -/
def resetReply (s : Slave w) : Slave w :=
  { s with
    shiftOut := 0
    csNPrev := true }

def resetSync (s : Slave w) : Slave w :=
  { s with
    toggleSync1 := false
    toggleSync2 := false
    toggleSync3 := false
    capturedSync1 := 0
    capturedSync2 := 0
    dout := 0
    dValid := false }

/-- An edge of `clk` with `rst` low. -/
def posedge (s : Slave w) : Slave w :=
  { s with
    toggleSync1 := s.dataReadyToggle
    toggleSync2 := s.toggleSync1
    toggleSync3 := s.toggleSync2
    capturedSync1 := s.capturedData
    capturedSync2 := s.capturedSync1
    dout := if s.toggleSync2 ^^ s.toggleSync3 then s.capturedSync2 else s.dout
    dValid := s.toggleSync2 ^^ s.toggleSync3 }

end Slave

/-- `spi_slave` with the levels of its control pins. -/
structure Spi (w : ℕ) where
  rst : Bool
  csN : Bool
  slave : Slave w
  deriving DecidableEq

/-- One edge; `din` is the word to be sent. A level that is there already has no edge. -/
def Spi.react {w : ℕ} (din : BitVec w) (s : Spi w) : Edge → Spi w
  | .clk => { s with slave := if s.rst then s.slave.resetSync else s.slave.posedge }
  | .sclkRise mosi =>
    { s with slave := if s.rst || s.csN then s.slave.deselect else s.slave.shift mosi }
  | .sclkFall =>
    { s with slave := if s.rst then s.slave.resetReply else s.slave.shiftReply s.csN din }
  | .csRise => if s.csN then s else { s with csN := true, slave := s.slave.deselect }
  | .csFall => { s with csN := false }
  -- every register of the slave is reset without waiting for a clock
  | .rstRise =>
    if s.rst then s else { s with rst := true, slave := s.slave.deselect.resetReply.resetSync }
  | .rstFall => { s with rst := false }

end RiscvSoc.Peripherals.SpiSlave
