/- GID: RiscvSoc/Memory/DpRam
   generality: G
   utility: model
   digest: The dual-port BRAM with registered read addresses and byte-masked writes. -/

import RiscvSoc.Cpu.Decoder
import RiscvSoc.Memory.ByteLanes

set_option autoImplicit false
set_option relaxedAutoImplicit false

namespace RiscvSoc.Memory.DpRam

open RiscvSoc.Cpu.Decoder
open RiscvSoc.Memory.ByteLanes

abbrev BramAddr := BitVec 12

/-- Bits [13:2] of a byte address. -/
def wordIndex (a : Word) : BramAddr := a.extractLsb' 2 12

/-- `dp_ram_model` with `REGISTERED_ADDR = 1`. -/
structure Bram where
  mem : BramAddr → Word
  addressAR : BramAddr
  addressBR : BramAddr

structure DpRamIn where
  addressA : BramAddr
  dataA : Word
  wrenA : Bool
  byteenaA : BitVec 4
  addressB : BramAddr
  dataB : Word
  wrenB : Bool
  byteenaB : BitVec 4

namespace Bram

def qA (s : Bram) : Word := s.mem s.addressAR
def qB (s : Bram) : Word := s.mem s.addressBR

/-- One clock edge: port A writes first, then port B. -/
def posedge (s : Bram) (i : DpRamIn) : Bram :=
  let memA := if i.wrenA then writeMasked s.mem i.addressA i.dataA i.byteenaA else s.mem
  { mem := if i.wrenB then writeMasked memA i.addressB i.dataB i.byteenaB else memA
    addressAR := i.addressA
    addressBR := i.addressB }

end Bram

end RiscvSoc.Memory.DpRam
