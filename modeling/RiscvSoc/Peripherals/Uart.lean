/- GID: RiscvSoc/Peripherals/Uart
   generality: G
   utility: model
   digest: UART transmitter and receiver, generic in counter width, parity and stop bits. -/

import RiscvSoc.Memory.ByteLanes
import Mathlib.Algebra.Group.Nat.Defs
import Mathlib.Data.Nat.Log

set_option autoImplicit false
set_option relaxedAutoImplicit false

namespace RiscvSoc.Peripherals.Uart

open RiscvSoc.Memory.ByteLanes

/-- The module parameters; `DATA_WIDTH` is 8 in every instance. -/
structure UartParams where
  clkBits : ℕ
  parityBits : ℕ
  stopBits : ℕ

namespace UartParams

def packetSize (p : UartParams) : ℕ := 8 + p.stopBits + p.parityBits + 1

def indexBits (p : UartParams) : ℕ := Nat.clog 2 p.packetSize

/-- `clk_per_bit - 1`, taken in 32 bits at least because the literal has as many. -/
def bitEnd (p : UartParams) (clkPerBit : ℕ) : ℕ :=
  (clkPerBit + 2 ^ max 32 p.clkBits - 1) % 2 ^ max 32 p.clkBits

theorem bitEnd_eq (p : UartParams) {clkPerBit : ℕ} (pos : 0 < clkPerBit)
    (small : clkPerBit < 2 ^ p.clkBits) : p.bitEnd clkPerBit = clkPerBit - 1 := by
  have wide : 2 ^ p.clkBits ≤ 2 ^ max 32 p.clkBits :=
    Nat.pow_le_pow_right (by decide) (le_max_right ..)
  have shift : clkPerBit + 2 ^ max 32 p.clkBits - 1 = clkPerBit - 1 + 2 ^ max 32 p.clkBits := by
    omega
  rw [bitEnd, shift, Nat.add_mod_right, Nat.mod_eq_of_lt (by omega)]

/-- No index into the packet overflows the index register. -/
theorem packetSize_le (p : UartParams) : p.packetSize ≤ 2 ^ p.indexBits :=
  Nat.le_pow_clog (by decide) _

end UartParams

/-- `^b`: 1 for an odd number of ones. -/
def parityOf (b : Byte) : Bool := (List.range 8).foldl (fun p k => p ^^ b.getLsbD k) false

section Transmitter

inductive TxState where
  | idle
  | transmit
  | done
  deriving DecidableEq

/-- The registers of `UART_TX`. The packet is listed start bit first. -/
@[ext] structure UartTx where
  txOut : Bool
  txDone : Bool
  busy : Bool
  packet : List Bool
  index : ℕ
  clkCount : ℕ
  state : TxState
  deriving DecidableEq

namespace UartTx

/-- `{stop bits, parity if any, dataIn, start bit}`. -/
def frame (p : UartParams) (dataIn : Byte) : List Bool :=
  false :: (List.range 8).map dataIn.getLsbD ++
    (if 0 < p.parityBits then [parityOf dataIn] else []) ++ List.replicate p.stopBits true

/-- One clock edge. The packet register has no reset. -/
def posedge (p : UartParams) (clkPerBit : ℕ) (s : UartTx) (rst : Bool) (dataIn : Byte)
    (txEn : Bool) : UartTx :=
  if rst then
    { s with
      txOut := true, state := .idle, busy := false, index := 0, clkCount := 0, txDone := false }
  else
    match s.state with
    | .idle =>
      let t := { s with txOut := true, index := 0, clkCount := 0, txDone := false }
      if txEn then { t with packet := frame p dataIn, busy := true, state := .transmit } else t
    | .transmit =>
      let t := { s with txOut := s.packet.getD s.index true }
      if s.clkCount < p.bitEnd clkPerBit then
        { t with clkCount := (s.clkCount + 1) % 2 ^ p.clkBits }
      else if s.index = p.packetSize - 1 then { t with clkCount := 0, state := .done }
      else { t with clkCount := 0, index := (s.index + 1) % 2 ^ p.indexBits }
    | .done =>
      { s with state := .idle, busy := false, txDone := true, index := 0, clkCount := 0 }

def packetByte (s : UartTx) : Byte :=
  (BitVec.ofBoolListLE ((s.packet.drop 1).take 8)).setWidth 8

end UartTx

end Transmitter

section Receiver

inductive RxState where
  | idle
  | start
  | receive
  | done
  deriving DecidableEq

/-- The registers of `UART_RX`. -/
@[ext] structure UartRx where
  rxOut : Byte
  index : ℕ
  clkCount : ℕ
  regInMeta : Bool
  regIn : Bool
  parity : Bool
  dataOut : Byte
  dataDone : Bool
  state : RxState
  deriving DecidableEq

namespace UartRx

/-- `dataOut[index] <= regIn`. -/
def setBit (b : Byte) (k : ℕ) (v : Bool) : Byte :=
  if v then b ||| 1#8 <<< k else b &&& ~~~(1#8 <<< k)

def rxDone (s : UartRx) : Bool := s.dataDone

def parityError (p : UartParams) (s : UartRx) : Bool :=
  if 0 < p.parityBits then parityOf s.rxOut ^^ s.parity else false

/-- One clock edge. The synchronizer, `RXout` and `parity` have no reset. -/
def posedge (p : UartParams) (clkPerBit : ℕ) (s : UartRx) (rst : Bool) (dataIn : Bool) : UartRx :=
  let s' := { s with regInMeta := dataIn, regIn := s.regInMeta }
  let count := (s.clkCount + 1) % 2 ^ p.clkBits
  if rst then
    { s' with dataOut := 0, state := .idle, index := 0, clkCount := 0, dataDone := false }
  else
    match s.state with
    | .idle =>
      { s' with
        clkCount := 0, index := 0, dataOut := 0, dataDone := false
        state := if s.regIn then .idle else .start }
    | .start =>
      if s.clkCount = p.bitEnd clkPerBit / 2 then { s' with clkCount := 0, state := .receive }
      else { s' with clkCount := count }
    | .receive =>
      if s.clkCount < p.bitEnd clkPerBit then { s' with clkCount := count }
      else if s.index < 8 then
        { s' with
          clkCount := 0
          dataOut := setBit s.dataOut s.index s.regIn
          index := (s.index + 1) % 2 ^ p.indexBits }
      else if s.index = 8 ∧ 0 < p.parityBits then
        { s' with clkCount := 0, parity := s.regIn, state := .done }
      else { s' with clkCount := 0, state := .done }
    | .done =>
      if s.clkCount = p.bitEnd clkPerBit / 2 then
        { s' with
          clkCount := 0, state := .idle, dataDone := true, index := 0, rxOut := s.dataOut }
      else { s' with clkCount := count }

end UartRx

end Receiver

def idleTx : UartTx where
  txOut := true
  txDone := false
  busy := false
  packet := []
  index := 0
  clkCount := 0
  state := .idle

def idleRx : UartRx where
  rxOut := 0
  index := 0
  clkCount := 0
  regInMeta := true
  regIn := true
  parity := false
  dataOut := 0
  dataDone := false
  state := .idle

/-- The `uart` module: one transmitter and one receiver. -/
structure UartPair where
  tx : UartTx
  rx : UartRx

end RiscvSoc.Peripherals.Uart
