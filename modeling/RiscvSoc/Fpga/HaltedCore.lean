/- GID: RiscvSoc/Fpga/HaltedCore
   generality: G
   utility: main
   digest: What a halted core does to BRAM, UART, framebuffer and timer. -/

import RiscvSoc.Fpga.RiscvTop

set_option autoImplicit false
set_option relaxedAutoImplicit false

namespace RiscvSoc.Fpga.HaltedCore

open RiscvSoc.Clocked.Trajectory
open RiscvSoc.Cpu.Decoder
open RiscvSoc.Memory.ByteLanes
open RiscvSoc.Memory.DpRam
open RiscvSoc.Peripherals.Timer
open RiscvSoc.Peripherals.Uart
open RiscvSoc.Peripherals.VgaFramebuffer
open RiscvSoc.Peripherals.DebugUart
open RiscvSoc.Fpga.RiscvTop

/-- What a store can change outside the core. -/
@[ext] structure Devices where
  mem : BramAddr → Word
  timer : TimerRegs
  vga : VgaRegs
  tx : UartTx

def devices (s : Soc) : Devices where
  mem := s.bram.mem
  timer := s.timer
  vga := s.vga
  tx := s.uart.tx

/-- One clock of the devices in which the core writes nothing: WRITE_MEM reaches the memory, the
timer counts, the framebuffer scans out and answers reads, a transmission goes on. -/
def unattended (clkPerBit : ℕ) (d : Devices) (s : Soc) (i : SocIn) : Devices where
  mem :=
    if s.dbg.fsm.dbgMemWe then
      Function.update d.mem (wordIndex s.dbg.fsm.memAddr) s.dbg.fsm.memWdata
    else d.mem
  timer := d.timer.tick i.rst
  vga :=
    let bus := { s.vgaIn i with we := false }
    (d.vga.posedge 2 bus).posedge 2 bus
  tx := d.tx.posedge uartParams clkPerBit i.rst 0 false

/-- A store is on the data port while a device is selected. -/
def storeOnDevice (s : Soc) (i : SocIn) : Bool :=
  s.dmemWe i && (s.bramSel i || s.uartSel i || s.vgaSel i || s.timerSel i)

section Edge

variable {clkPerBit : ℕ} {s : Soc} {i : SocIn}

private theorem strobes_low (free : storeOnDevice s i = false) :
    (s.dmemWe i && s.bramSel i) = false ∧ s.uartTxEn i = false ∧
      (s.vgaSel i && s.dmemWe i) = false ∧ (s.timerSel i && s.dmemWe i) = false := by
  rw [storeOnDevice, Bool.and_eq_false_iff] at free
  rcases free with low | unselected
  · simp [Soc.uartTxEn, low]
  · simp only [Bool.or_eq_false_iff] at unselected
    simp [Soc.uartTxEn, unselected]

/-- A clock without a store on a device leaves the devices to themselves, halted or not. -/
theorem devices_posedge (free : storeOnDevice s i = false) :
    devices (s.posedge clkPerBit i) = unattended clkPerBit (devices s) s i := by
  obtain ⟨bram, uart, vga, timer⟩ := strobes_low free
  ext1
  · by_cases we : s.dbg.fsm.dbgMemWe = true
    · have valid := DebugRegs.dbgMemValid_of_dbgMemWe we
      simp [devices, unattended, Soc.posedge, Bram.posedge, Soc.bramIn, we, valid, writeMasked]
    · by_cases valid : s.dbg.fsm.dbgMemValid = true <;>
        simp [devices, unattended, Soc.posedge, Bram.posedge, Soc.bramIn, we, valid, bram]
  · exact TimerRegs.posedge_unwritten _ _ timer
  · have first : s.vgaMid i = s.vga.posedge 2 { s.vgaIn i with we := false } :=
      VgaRegs.posedge_unwritten _ _ _ vga
    change (s.vgaMid i).posedge 2 (s.vgaIn i) = _
    rw [first]
    exact VgaRegs.posedge_unwritten _ _ _ vga
  · simp [devices, unattended, Soc.posedge, Soc.uartTxData, uart]

end Edge

section Runs

/-- A board whose program is `lui x1, 0x10000; sw x0, 0(x1)`. -/
def sendBoard : Top := ⟨Soc.powerUp .pipelinedZero [0x100000b7, 0x0000a023], idleRx⟩

/-- Reset in the first clock, then KEY[1] held down until clock `up`. -/
def sendPins (up n : ℕ) : Pins := { key0 := n != 0, key1 := n == 0 || decide (up ≤ n) }

/-- With KEY[1] up from clock 9 on, the store reaches MEM in the first halted clock and starts a
transmission in it. -/
theorem halted_core_transmits :
    let t := (Top.run sendBoard (sendPins 9) 9).soc
    t.halt (Top.socInput sendBoard (sendPins 9) 9) = true ∧ t.uart.tx.state = .idle ∧
      (Top.run sendBoard (sendPins 9) 10).soc.uart.tx.state = .transmit := by
  decide +kernel

/-- The halt input of the core in clock `n`. -/
def haltedAt (s : Top) (pins : ℕ → Pins) (n : ℕ) : Bool :=
  (Top.run s pins n).soc.halt (Top.socInput s pins n)

/-- In a run in which no halted clock has a store on a device, the devices evolve through every
halted clock as if there were no core, and a word of WRITE_MEM stays until the debug UART writes
it again. -/
theorem halted_core_has_no_effect (s : Top) (pins : ℕ → Pins) (clocks : ℕ)
    (free : ∀ n < clocks, haltedAt s pins n = true →
      storeOnDevice (Top.run s pins n).soc (Top.socInput s pins n) = false) :
    (∀ n < clocks, haltedAt s pins n = true →
      devices (Top.run s pins (n + 1)).soc =
        unattended clkPerBit (devices (Top.run s pins n).soc) (Top.run s pins n).soc
          (Top.socInput s pins n)) ∧
    ∀ m k, m + k < clocks → (∀ j ≤ k, haltedAt s pins (m + j) = true) →
      let written := (Top.run s pins m).soc.dbg.fsm
      written.dbgMemWe = true →
      (∀ j < k, (Top.run s pins (m + 1 + j)).soc.dbg.fsm.dbgMemWe = true →
        wordIndex (Top.run s pins (m + 1 + j)).soc.dbg.fsm.memAddr ≠ wordIndex written.memAddr) →
      (Top.run s pins (m + 1 + k)).soc.bram.mem (wordIndex written.memAddr) =
        written.memWdata := by
  have clock : ∀ n < clocks, haltedAt s pins n = true →
      devices (Top.run s pins (n + 1)).soc =
        unattended clkPerBit (devices (Top.run s pins n).soc) (Top.run s pins n).soc
          (Top.socInput s pins n) := by
    intro n inside halted
    exact devices_posedge (free n inside halted)
  refine ⟨clock, ?_⟩
  intro m k
  induction k with
  | zero =>
    intro inside halted written we _
    have mem := congrFun (congrArg Devices.mem (clock m inside (halted 0 le_rfl)))
      (wordIndex written.memAddr)
    rw [unattended, if_pos we] at mem
    exact mem.trans (Function.update_self ..)
  | succ k ih =>
    intro inside halted written we other
    have kept := ih (by omega) (fun j hj => halted j (by omega)) we
      (fun j hj => other j (by omega))
    have now : haltedAt s pins (m + 1 + k) = true := by
      have := halted (k + 1) le_rfl
      rwa [show m + (k + 1) = m + 1 + k by omega] at this
    have mem := congrFun (congrArg Devices.mem (clock _ (by omega) now))
      (wordIndex written.memAddr)
    refine Eq.trans mem (Eq.trans ?_ kept)
    by_cases again : (Top.run s pins (m + 1 + k)).soc.dbg.fsm.dbgMemWe = true
    · rw [unattended, if_pos again]
      exact Function.update_of_ne (other k (by omega) again).symm _ _
    · rw [unattended, if_neg again]
      rfl

/-- The same program halted two clocks later, when the store has left MEM: the transmission it
started is the only one. -/
theorem halted_core_has_no_effect_afterStore :
    (Top.run sendBoard (sendPins 11) 13).soc.uart.tx =
      (Top.run sendBoard (sendPins 11) 12).soc.uart.tx.posedge uartParams clkPerBit false 0
        false :=
  congrArg Devices.tx ((halted_core_has_no_effect sendBoard (sendPins 11) 13
    (by decide +kernel)).1 12 (by decide) (by decide +kernel))

end Runs

end RiscvSoc.Fpga.HaltedCore
