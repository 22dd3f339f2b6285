/- GID: RiscvSoc/Fpga/UartPort
   generality: G
   utility: support
   digest: The program UART behind its three registers. -/

import RiscvSoc.Fpga.RiscvTop
import RiscvSoc.Peripherals.TxFrame
import RiscvSoc.Peripherals.RxFrame

set_option autoImplicit false
set_option relaxedAutoImplicit false

namespace RiscvSoc.Fpga.UartPort

open RiscvSoc.Clocked.Trajectory
open RiscvSoc.Cpu.Decoder
open RiscvSoc.Memory.ByteLanes
open RiscvSoc.Peripherals
open RiscvSoc.Peripherals.Uart
open RiscvSoc.Peripherals.DebugUart
open RiscvSoc.Fpga.RiscvTop

section Registers

def uartTxAddr : Word := 0x10000000
def uartRxAddr : Word := 0x10000004
def uartStatusAddr : Word := 0x10000008

/-- The core completes a load from `a` in this clock, with the peripherals to itself. -/
structure Loads (s : Soc) (i : SocIn) (a : Word) : Prop where
  running : s.halt i = false
  re : s.dmemRe i = true
  rvalid : s.dmemRvalid i = true
  addr : s.dmemAddr i = a
  own : s.dbg.fsm.dbgMmioValid = false

instance (s : Soc) (i : SocIn) (a : Word) : Decidable (Loads s i a) :=
  decidable_of_iff (s.halt i = false ∧ s.dmemRe i = true ∧ s.dmemRvalid i = true ∧
      s.dmemAddr i = a ∧ s.dbg.fsm.dbgMmioValid = false)
    ⟨fun ⟨running, re, rvalid, addr, own⟩ => ⟨running, re, rvalid, addr, own⟩,
      fun loads => ⟨loads.running, loads.re, loads.rvalid, loads.addr, loads.own⟩⟩

/-- A store of this byte to the TX register is on the bus. -/
structure Stores (s : Soc) (i : SocIn) (b : Byte) : Prop where
  we : s.dmemWe i = true
  addr : s.dmemAddr i = uartTxAddr
  data : (s.dmemWdata i).extractLsb' 0 8 = b
  own : s.dbg.fsm.dbgMmioValid = false

variable {s : Soc} {i : SocIn} {a : Word} {b : Byte}

private theorem ldData_uart (loads : Loads s i a) (mem : inBram a = false)
    (uart : inUart a = true) :
    s.ldData i = s.uartRdData i ∧ s.periphAddr i = a := by
  have own : s.periphAddr i = a := by
    rw [Soc.periphAddr, loads.own]
    exact loads.addr
  constructor
  · rw [Soc.ldData, Soc.bramSel, loads.addr, mem, Soc.uartSel, own, uart]
    rfl
  · exact own

/-- STATUS shows `TX_busy` in bit 0 and `RX_done` in bit 1. -/
theorem ldData_status (loads : Loads s i uartStatusAddr) :
    (s.ldData i).getLsbD 0 = s.uart.tx.busy ∧ (s.ldData i).getLsbD 1 = s.uart.rx.rxDone := by
  obtain ⟨data, addr⟩ := ldData_uart loads (by decide) (by decide)
  have status : s.ldData i =
      (BitVec.ofBool s.uart.rx.rxDone ++ BitVec.ofBool s.uart.tx.busy).setWidth 32 := by
    rw [data, Soc.uartRdData, addr]
    rfl
  rw [status]
  cases s.uart.rx.rxDone <;> cases s.uart.tx.busy <;> exact ⟨rfl, rfl⟩

theorem ldData_rxData (loads : Loads s i uartRxAddr) :
    (s.ldData i).extractLsb' 0 8 = s.uart.rx.rxOut := by
  obtain ⟨data, addr⟩ := ldData_uart loads (by decide) (by decide)
  have byte : s.ldData i = s.uart.rx.rxOut.setWidth 32 := by
    rw [data, Soc.uartRdData, addr]
    rfl
  rw [byte]
  apply BitVec.eq_of_getLsbD_eq
  intro j inside
  have word : j < 32 := by omega
  rw [BitVec.getLsbD_extractLsb', BitVec.getLsbD_setWidth]
  simp [inside, word]

theorem uartTx_of_stores (stores : Stores s i b) :
    s.uartTxEn i = true ∧ s.uartTxData i = b := by
  have own : s.periphAddr i = uartTxAddr := by
    rw [Soc.periphAddr, stores.own]
    exact stores.addr
  have en : s.uartTxEn i = true := by
    rw [Soc.uartTxEn, Soc.uartSel, own, stores.we, stores.addr]
    rfl
  exact ⟨en, by rw [Soc.uartTxData, if_pos en, stores.data]⟩

end Registers

section Runs

variable {clkPerBit : ℕ} {s : Soc} {input : ℕ → SocIn}

def txInput (clkPerBit : ℕ) (s : Soc) (input : ℕ → SocIn) (n : ℕ) : Byte × Bool :=
  ((Soc.run clkPerBit s input n).uartTxData (input n),
    (Soc.run clkPerBit s input n).uartTxEn (input n))

theorem tx_run (noRst : ∀ n, (input n).rst = false) (n : ℕ) :
    (Soc.run clkPerBit s input n).uart.tx =
      TxFrame.run uartParams clkPerBit s.uart.tx (txInput clkPerBit s input) n := by
  induction n with
  | zero => rfl
  | succ n ih =>
    rw [TxFrame.run_succ, ← ih, ← noRst n]
    rfl

theorem rx_run (noRst : ∀ n, (input n).rst = false) (n : ℕ) :
    (Soc.run clkPerBit s input n).uart.rx =
      RxFrame.run uartParams clkPerBit s.uart.rx (fun n => (input n).uartRx) n := by
  induction n with
  | zero => rfl
  | succ n ih =>
    have step : (Soc.run clkPerBit s input (n + 1)).uart.rx =
        (Soc.run clkPerBit s input n).uart.rx.posedge uartParams clkPerBit (input n).rst
          (input n).uartRx := rfl
    rw [step, ih, noRst n]
    rfl

end Runs

end RiscvSoc.Fpga.UartPort
