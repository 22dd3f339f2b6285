/- GID: RiscvSoc/Peripherals/Timer
   generality: G
   utility: model
   digest: The periodic down-counter, its bus port and its clock edge. -/

import RiscvSoc.Cpu.Decoder

set_option autoImplicit false
set_option relaxedAutoImplicit false

namespace RiscvSoc.Peripherals.Timer

open RiscvSoc.Cpu.Decoder

/-- The registers of `timer`, with the values reset gives them. -/
@[ext] structure TimerRegs where
  reloadVal : Word := 0
  en : Bool := false
  pending : Bool := false
  count : Word := 0
  deriving DecidableEq

/-- The bus port of the timer; `addr` is the byte address within the peripheral. -/
structure TimerIn where
  rst : Bool
  sel : Bool
  addr : BitVec 4
  wdata : Word
  we : Bool
  re : Bool

namespace TimerRegs

def irq (s : TimerRegs) : Bool := s.pending

/-- The register at `addr[3:2]`. -/
def readReg (s : TimerRegs) (reg : BitVec 2) : Word :=
  if reg = 0b00 then s.reloadVal
  else if reg = 0b01 then (BitVec.ofBool s.en).setWidth 32
  else if reg = 0b10 then (BitVec.ofBool s.pending).setWidth 32
  else 0

def rdata (s : TimerRegs) (i : TimerIn) : Word :=
  if i.re && i.sel then s.readReg (i.addr.extractLsb' 2 2) else 0

/-- The bus write; a write of 1 to STATUS clears `pending`. -/
def write (s : TimerRegs) (reg : BitVec 2) (wdata : Word) : TimerRegs :=
  if reg = 0b00 then { s with reloadVal := wdata }
  else if reg = 0b01 then { s with en := wdata.getLsbD 0 }
  else if reg = 0b10 then if wdata.getLsbD 0 then { s with pending := false } else s
  else s

def written (s : TimerRegs) (i : TimerIn) : TimerRegs :=
  if i.sel && i.we then s.write (i.addr.extractLsb' 2 2) i.wdata else s

/-- One clock edge. The countdown reads the registers of before the edge, and its assignment to
`pending` comes after that of the bus write. -/
def posedge (s : TimerRegs) (i : TimerIn) : TimerRegs :=
  if i.rst then {}
  else
    let t := s.written i
    if s.en then
      if s.count = 0 then { t with count := s.reloadVal, pending := true }
      else { t with count := s.count - 1 }
    else t

/-- The edge on which nothing is written. -/
def tick (s : TimerRegs) (rst : Bool) : TimerRegs :=
  s.posedge { rst, sel := false, addr := 0, wdata := 0, we := false, re := false }

/-- The rest of the bus port matters for what it writes only. -/
theorem posedge_congr (s : TimerRegs) {i j : TimerIn} (rst : i.rst = j.rst)
    (written : s.written i = s.written j) : s.posedge i = s.posedge j := by
  simp only [posedge, rst, written]

/-- The countdown leaves RELOAD to the bus. -/
theorem reloadVal_posedge (s : TimerRegs) {i : TimerIn} (rst : i.rst = false) :
    (s.posedge i).reloadVal = (s.written i).reloadVal := by
  simp only [posedge, rst, Bool.false_eq_true, if_false]
  repeat' split
  all_goals rfl

/-- Only a write strobe that comes with the select reaches the registers. -/
theorem posedge_unwritten (s : TimerRegs) (i : TimerIn) (unwritten : (i.sel && i.we) = false) :
    s.posedge i = s.tick i.rst :=
  s.posedge_congr rfl (by simp [written, unwritten])

end TimerRegs

end RiscvSoc.Peripherals.Timer
