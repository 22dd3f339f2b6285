/- GID: RiscvSoc/Fpga/UartTransmit
   generality: G
   utility: main
   digest: Bytes sent by polling TX_busy and storing to the TX register. -/

import RiscvSoc.Fpga.HaltedBoard
import RiscvSoc.Fpga.UartPort

set_option autoImplicit false
set_option relaxedAutoImplicit false

namespace RiscvSoc.Fpga.UartTransmit

open RiscvSoc.Clocked.Trajectory
open RiscvSoc.Cpu.Decoder
open RiscvSoc.Memory.ByteLanes
open RiscvSoc.Peripherals.Uart
open RiscvSoc.Peripherals.TxFrame
open RiscvSoc.Peripherals.DebugUart
open RiscvSoc.Peripherals
open RiscvSoc.Peripherals.DebugReceive
open RiscvSoc.Fpga.RiscvTop
open RiscvSoc.Fpga.HaltedBoard
open RiscvSoc.Fpga.UartPort

section Protocol

/-- One byte of the program: the clock of the poll that sees the transmitter free, and the clocks
in which the store is on the bus. -/
structure Transfer where
  byte : Byte
  poll : ℕ
  first : ℕ
  clocks : ℕ

/-- From clock `n` on the program sends these bytes and makes no other use of the transmitter:
for each one it polls STATUS until `TX_busy` is 0, and then stores the byte. -/
def Polled (clkPerBit : ℕ) (s : Soc) (input : ℕ → SocIn) : ℕ → List Transfer → Prop
  | n, [] => ∀ m, n ≤ m → (Soc.run clkPerBit s input m).uartTxEn (input m) = false
  | n, t :: ts =>
    n ≤ t.poll ∧ t.poll < t.first ∧ 1 ≤ t.clocks ∧ t.clocks ≤ 11 * clkPerBit ∧
      Loads (Soc.run clkPerBit s input t.poll) (input t.poll) uartStatusAddr ∧
      ((Soc.run clkPerBit s input t.poll).ldData (input t.poll)).getLsbD 0 = false ∧
      (∀ m, n ≤ m → m < t.first → (Soc.run clkPerBit s input m).uartTxEn (input m) = false) ∧
      (∀ m, t.first ≤ m → m < t.first + t.clocks →
        Stores (Soc.run clkPerBit s input m) (input m) t.byte) ∧
      Polled clkPerBit s input (t.first + t.clocks) ts

/-- From clock `n` on the line carries one frame for each of these bytes, and is high before,
between and after them. -/
def Carries (p : UartParams) (clkPerBit : ℕ) (line : ℕ → Bool) : ℕ → List Byte → Prop
  | n, [] => ∀ m, n ≤ m → line m = true
  | n, b :: bs => ∃ first, n ≤ first ∧ (∀ m, n ≤ m → m < first → line m = true) ∧
      (∀ k < frameClocks p clkPerBit,
        line (first + k) = (UartTx.frame p b).getD (k / clkPerBit) true) ∧
      Carries p clkPerBit line (first + frameClocks p clkPerBit) bs

variable {clkPerBit : ℕ} {s : Soc} {input : ℕ → SocIn}

private theorem high_quiet {p : UartParams} {t : UartTx} {i : ℕ → Byte × Bool} {m k : ℕ}
    (ready : Ready (run p clkPerBit t i m)) (high : (run p clkPerBit t i m).txOut = true)
    (quiet : ∀ j, m ≤ j → j < m + k → (i j).2 = false) :
    ∀ j, m ≤ j → j ≤ m + k + 1 → (run p clkPerBit t i j).txOut = true := by
  intro j lo hi
  obtain ⟨x, rfl⟩ := Nat.exists_eq_add_of_le lo
  cases x with
  | zero => exact high
  | succ x =>
    rw [← Nat.add_assoc, run_succ]
    exact txOut_ready _ _ (ready_quiet ready fun y ylo yhi => quiet y ylo (by omega)) _ _

/-- Bytes sent by polling go out one frame each: nothing is dropped, repeated or reordered. The
poll is what keeps the frames apart, and a frame outlasts the store that starts it. -/
private theorem carries_run (pos : 0 < clkPerBit) (fits : clkPerBit < 2 ^ 16)
    (noRst : ∀ n, (input n).rst = false) {n m : ℕ} (ts : List Transfer)
    (polled : Polled clkPerBit s input n ts) (le : n ≤ m)
    (busy : ∀ x, n ≤ x → x < m →
      (run uartParams clkPerBit s.uart.tx (txInput clkPerBit s input) x).busy = true)
    (ready : Ready (run uartParams clkPerBit s.uart.tx (txInput clkPerBit s input) m))
    (high : (run uartParams clkPerBit s.uart.tx (txInput clkPerBit s input) m).txOut = true) :
    Carries uartParams clkPerBit
      (fun x => (run uartParams clkPerBit s.uart.tx (txInput clkPerBit s input) x).txOut)
      m (ts.map Transfer.byte) := by
  induction ts generalizing n m with
  | nil =>
    intro x lo
    obtain ⟨k, rfl⟩ := Nat.exists_eq_add_of_le lo
    exact high_quiet (k := k) ready high (fun j jlo _ => polled j (by omega)) _ lo (by omega)
  | cons t ts ih =>
    obtain ⟨after, before, some, short, loads, free, quiet, stores, rest⟩ := polled
    -- the transmitter was seen free, so the frame before is over
    have idle : (run uartParams clkPerBit s.uart.tx (txInput clkPerBit s input) t.poll).busy =
        false := by
      rw [← tx_run noRst, ← (ldData_status loads).1, free]
    have ended : m ≤ t.poll := by
      by_contra early
      rw [busy t.poll after (by omega)] at idle
      exact absurd idle (by simp)
    obtain ⟨wait, first⟩ := Nat.exists_eq_add_of_le (show m ≤ t.first by omega)
    have silent : ∀ j, m ≤ j → j < m + wait → (txInput clkPerBit s input j).2 = false := by
      intro j lo hi
      exact quiet j (by omega) (by omega)
    have start := ready_quiet ready silent
    rw [← first] at start
    have offer : txInput clkPerBit s input t.first = (t.byte, true) := by
      obtain ⟨en, data⟩ := uartTx_of_stores (stores t.first le_rfl (by omega))
      exact Prod.ext data en
    refine ⟨t.first + 2, by omega, ?_, ?_, ?_⟩
    · intro x lo hi
      exact high_quiet ready high silent x lo (by omega)
    · intro k inside
      exact txOut_run pos fits start offer inside
    · have frame : frameClocks uartParams clkPerBit = 11 * clkPerBit := rfl
      apply ih rest
      · omega
      · intro x lo hi
        obtain ⟨k, rfl⟩ := Nat.exists_eq_add_of_le (show t.first + 1 ≤ x by omega)
        exact busy_run pos fits start offer (by omega)
      · exact ready_run pos fits start offer
      · exact stop_run pos fits start offer (by decide)

end Protocol

section Example

/-- `lui x3, 0x10000`; `addi x4, x0, 0x41`; `lw x5, 8(x3)`; `andi x5, x5, 1`; `bne x5, x0, -8`;
`sw x4, 0(x3)`; `addi x4, x4, 1`; `jal x0, -20`. -/
def sendProgram : List Word :=
  [0x100001B7, 0x04100213, 0x0081A283, 0x0012F293, 0xFE029CE3, 0x0041A023, 0x00120213, 0xFEDFF06F]

def sendBoard : Soc := Soc.powerUp .pipelinedZero sendProgram

def sendInput (n : ℕ) : SocIn :=
  if n = 0 then { rxDone := true, rxData := Command.resume.code }
  else if n = 57 then { rxDone := true, rxData := Command.halt.code }
  else {}

private theorem sendBoard_halted (n : ℕ) (after : 58 ≤ n) :
    (Soc.run 1 sendBoard sendInput n).uartTxEn (sendInput n) = false := by
  have calm : HandsOff sendInput n := by
    intro k _
    unfold sendInput
    repeat' split
    all_goals exact ⟨rfl, rfl⟩
  have halt : ∀ k, 58 ≤ k → k < n → (Soc.run 1 sendBoard sendInput k).dbg.fsm.halt = true := by
    intro k lo hi
    obtain ⟨j, rfl⟩ := Nat.exists_eq_add_of_le lo
    have here : Settled (DebugReply.run 1 sendBoard.dbg (debugInput 1 sendBoard sendInput) 58).fsm
        (DebugReply.run 1 sendBoard.dbg (debugInput 1 sendBoard sendInput) 58) :=
      ⟨rfl, by decide +kernel, ⟨by decide +kernel, by decide +kernel⟩⟩
    have silent : Silent (fun x => heard (debugInput 1 sendBoard sendInput x)) 58 (58 + j) := by
      intro x xlo _
      have quiet : sendInput x = {} := by
        rw [sendInput, if_neg (by omega), if_neg (by omega)]
      simp [heard, debugInput, Soc.debugIn, quiet]
    have still := (idle_silent (fun _ => rfl) here (by decide +kernel) j silent).1
    rw [(dbg_run 1 sendBoard calm hi.le).1, halt_of_settled still]
    decide +kernel
  have still := core_halted calm after le_rfl halt
  obtain ⟨c, core⟩ : ∃ c, (Soc.run 1 sendBoard sendInput 58).core = .pipelined c := ⟨_, rfl⟩
  have we : ((Soc.run 1 sendBoard sendInput 58).core.dataPort false 0).we = false := by
    decide +kernel
  rw [core] at we still
  rw [Soc.uartTxEn, Soc.dmemWe, Soc.dataPort, still]
  change (_ && c.dataPort.we && _) = false
  rw [show c.dataPort.we = false from we, Bool.and_false, Bool.false_and]

end Example

end RiscvSoc.Fpga.UartTransmit
