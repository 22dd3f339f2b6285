/- GID: RiscvSoc/Fpga/UartReceive
   generality: G
   utility: main
   digest: Bytes received by polling RX_done, which is up for one clock. -/

import RiscvSoc.Fpga.HaltedBoard
import RiscvSoc.Fpga.UartPort

set_option autoImplicit false
set_option relaxedAutoImplicit false

namespace RiscvSoc.Fpga.UartReceive

open RiscvSoc.Clocked.Trajectory
open RiscvSoc.Cpu.Decoder
open RiscvSoc.Memory.ByteLanes
open RiscvSoc.Peripherals
open RiscvSoc.Peripherals.Uart
open RiscvSoc.Peripherals.DebugUart
open RiscvSoc.Peripherals.DebugReceive
open RiscvSoc.Fpga.RiscvTop
open RiscvSoc.Fpga.HaltedBoard
open RiscvSoc.Fpga.UartPort

section Loop

variable (clkPerBit : ℕ) (s : Soc) (input : ℕ → SocIn)

/-- The receiver shows a new byte. -/
def Arrives (n : ℕ) : Prop := (Soc.run clkPerBit s input n).uart.rx.rxDone = true

/-- The program reads STATUS in this clock. -/
def Polls (n : ℕ) : Prop := Loads (Soc.run clkPerBit s input n) (input n) uartStatusAddr

/-- The program reads the RX register in this clock. -/
def Fetches (n : ℕ) : Prop := Loads (Soc.run clkPerBit s input n) (input n) uartRxAddr

instance (n : ℕ) : Decidable (Arrives clkPerBit s input n) :=
  inferInstanceAs (Decidable (_ = _))

instance (n : ℕ) : Decidable (Polls clkPerBit s input n) :=
  inferInstanceAs (Decidable (Loads _ _ _))

instance (n : ℕ) : Decidable (Fetches clkPerBit s input n) :=
  inferInstanceAs (Decidable (Loads _ _ _))

/-- Bit 1 of what a load returns in this clock. -/
def bit1 (n : ℕ) : Bool := ((Soc.run clkPerBit s input n).ldData (input n)).getLsbD 1

/-- `uart_rx_byte` called again and again is at `rx_got_byte`: a poll has seen bit 1, and the RX
register has not been read since. -/
def gotByte : ℕ → Bool
  | 0 => false
  | n + 1 =>
    if Polls clkPerBit s input n ∧ bit1 clkPerBit s input n = true then true
    else if Fetches clkPerBit s input n then false
    else gotByte n

/-- The bytes it has returned before clock `n`. -/
def returned : ℕ → List Byte
  | 0 => []
  | n + 1 =>
    returned n ++
      if gotByte clkPerBit s input n = true ∧ Fetches clkPerBit s input n then
        [((Soc.run clkPerBit s input n).ldData (input n)).extractLsb' 0 8]
      else []

/-- The bytes that have arrived before clock `n`. -/
def arrived : ℕ → List Byte :=
  emitted (Soc.posedge clkPerBit)
    (fun t _ => if t.uart.rx.rxDone then [t.uart.rx.rxOut] else []) s input

/-- The program polls at least once between the end of a byte and the end of the next one, and
reads the RX register between a poll that has seen bit 1 and the end of the next byte. -/
structure PollingLoop : Prop where
  polls : ∀ n, Arrives clkPerBit s input n →
    ∃ q, n ≤ q ∧ Polls clkPerBit s input q ∧
      ∀ x, n < x → x ≤ q → ¬Arrives clkPerBit s input x
  reads : ∀ q, Polls clkPerBit s input q → bit1 clkPerBit s input q = true →
    ∃ r, q < r ∧ Fetches clkPerBit s input r ∧
      ∀ x, q < x → x ≤ r → ¬Arrives clkPerBit s input x

/-- The first poll after a byte has arrived reads bit 1 as 1. What the loop has returned are the
first of the bytes that have arrived, once and in order, and each of them is among these before
the next one arrives. -/
structure SeesEveryByte : Prop where
  first : ∀ n q, Arrives clkPerBit s input n → n ≤ q → Polls clkPerBit s input q →
    (∀ x, n ≤ x → x < q → ¬Polls clkPerBit s input x) → bit1 clkPerBit s input q = true
  inOrder : ∀ n, returned clkPerBit s input n <+: arrived clkPerBit s input n
  everyByte : ∀ n, Arrives clkPerBit s input n → ∃ m, n < m ∧
    (∀ x, n < x → x < m → ¬Arrives clkPerBit s input x) ∧
    returned clkPerBit s input m = arrived clkPerBit s input m

end Loop

section Runs

variable {clkPerBit : ℕ} {s : Soc} {input : ℕ → SocIn} {n : ℕ}

private theorem bit1_iff_arrives (polls : Polls clkPerBit s input n) :
    bit1 clkPerBit s input n = true ↔ Arrives clkPerBit s input n := by
  rw [bit1, (ldData_status polls).2, Arrives]

private theorem rxOut_posedge {p : UartParams} {t : UartRx} {rst d : Bool}
    (quiet : (t.posedge p clkPerBit rst d).dataDone = false) :
    (t.posedge p clkPerBit rst d).rxOut = t.rxOut := by
  revert quiet
  cases rst
  case true => exact fun _ => rfl
  case false =>
    cases state : t.state <;> simp only [UartRx.posedge, state]
    all_goals
      repeat' split
      all_goals simp

private theorem rxOut_stays (quiet : ¬Arrives clkPerBit s input (n + 1)) :
    (Soc.run clkPerBit s input (n + 1)).uart.rx.rxOut =
      (Soc.run clkPerBit s input n).uart.rx.rxOut := by
  have done : (Soc.run clkPerBit s input (n + 1)).uart.rx.dataDone = false :=
    Bool.eq_false_iff.mpr quiet
  exact rxOut_posedge done

private theorem read_ahead (loop : PollingLoop clkPerBit s input) (n : ℕ)
    (got : gotByte clkPerBit s input n = true) :
    ∃ r, n ≤ r ∧ Fetches clkPerBit s input r ∧
      ∀ x, n ≤ x → x ≤ r → ¬Arrives clkPerBit s input x := by
  induction n with
  | zero => exact absurd got (by simp [gotByte])
  | succ n ih =>
    rw [gotByte] at got
    split at got
    · next seen =>
      obtain ⟨r, after, fetches, quiet⟩ := loop.reads n seen.1 seen.2
      exact ⟨r, after, fetches, fun x lo hi => quiet x (by omega) hi⟩
    · split at got
      · exact absurd got (by simp)
      · next later =>
        obtain ⟨r, after, fetches, quiet⟩ := ih got
        have past : n ≠ r := by
          rintro rfl
          exact later fetches
        exact ⟨r, by omega, fetches, fun x lo hi => quiet x (by omega) hi⟩

private theorem quiet_of_gotByte (loop : PollingLoop clkPerBit s input)
    (got : gotByte clkPerBit s input n = true) : ¬Arrives clkPerBit s input n := by
  obtain ⟨r, after, -, quiet⟩ := read_ahead loop n got
  exact quiet n le_rfl after

/-- If every `RX_done` clock has its poll, what has arrived has been returned, except for a byte
that has been seen and not read yet. -/
private theorem returned_append (loop : PollingLoop clkPerBit s input)
    (every : ∀ n, Arrives clkPerBit s input n → Polls clkPerBit s input n) (n : ℕ) :
    (returned clkPerBit s input n ++ if gotByte clkPerBit s input n = true then
      [(Soc.run clkPerBit s input n).uart.rx.rxOut] else []) = arrived clkPerBit s input n := by
  induction n with
  | zero => rfl
  | succ n ih =>
    have log : arrived clkPerBit s input (n + 1) = arrived clkPerBit s input n ++
        if (Soc.run clkPerBit s input n).uart.rx.rxDone then
          [(Soc.run clkPerBit s input n).uart.rx.rxOut] else [] := rfl
    have hold : gotByte clkPerBit s input (n + 1) = true →
        (Soc.run clkPerBit s input (n + 1)).uart.rx.rxOut =
          (Soc.run clkPerBit s input n).uart.rx.rxOut := by
      intro got
      exact rxOut_stays (quiet_of_gotByte loop got)
    rw [log, ← ih]
    by_cases arrives : Arrives clkPerBit s input n
    · have polls := every n arrives
      have seen := (bit1_iff_arrives polls).mpr arrives
      have free : gotByte clkPerBit s input n = false := by
        rw [← Bool.not_eq_true]
        intro got
        exact quiet_of_gotByte loop got arrives
      have next : gotByte clkPerBit s input (n + 1) = true := by
        rw [gotByte, if_pos ⟨polls, seen⟩]
      rw [returned, next, free, if_pos rfl, hold next, if_pos (show _ = true from arrives)]
      simp
    · have none : (Soc.run clkPerBit s input n).uart.rx.rxDone = false :=
        Bool.eq_false_iff.mpr arrives
      have unseen : ¬(Polls clkPerBit s input n ∧ bit1 clkPerBit s input n = true) := by
        rintro ⟨polls, seen⟩
        exact arrives ((bit1_iff_arrives polls).mp seen)
      have next : gotByte clkPerBit s input (n + 1) =
          if Fetches clkPerBit s input n then false else gotByte clkPerBit s input n := by
        rw [gotByte, if_neg unseen]
      rw [none, returned]
      by_cases fetches : Fetches clkPerBit s input n
      · rw [if_pos fetches] at next
        rw [next, ldData_rxData fetches]
        by_cases got : gotByte clkPerBit s input n = true <;> simp [got, fetches]
      · rw [if_neg fetches] at next
        by_cases got : gotByte clkPerBit s input n = true
        · rw [hold (next.trans got), next]
          simp [got, fetches]
        · rw [next]
          simp [got, fetches]

end Runs

section Example

/-- `lui x3, 0x10000`, then `lw x4, 8(x3)` over and over. -/
def pollProgram : List Word := [0x100001B7, 0x0081A203, 0xFFDFF06F]

def pollBoard : Soc := Soc.powerUp .pipelinedZero pollProgram

/-- KEY[1] lets the core run up to clock 9, in which its first poll is in MEM, and again from
clock 2300 on. In between a byte `0xFF` arrives. -/
def pollInput (n : ℕ) : SocIn where
  key1 := decide (9 ≤ n ∧ n < 2300)
  uartRx := !decide (50 ≤ n ∧ n < 50 + clkPerBit)

private theorem pollBoard_dbg (n : ℕ) :
    (Soc.run clkPerBit pollBoard pollInput n).dbg.fsm.state = .cmdIdle ∧
      (Soc.run clkPerBit pollBoard pollInput n).dbg.fsm.halt = true := by
  induction n with
  | zero => exact ⟨rfl, rfl⟩
  | succ n ih =>
    have step : (Soc.run clkPerBit pollBoard pollInput (n + 1)).dbg.fsm =
        (Soc.run clkPerBit pollBoard pollInput n).dbg.fsm.advance clkPerBit
          (Soc.run clkPerBit pollBoard pollInput n).dbg.tx.busy
          ((Soc.run clkPerBit pollBoard pollInput n).debugIn (pollInput n)) := rfl
    rw [step, idle_quiet _ _ ih.1 rfl]
    exact ih

private theorem pollBoard_halt (n : ℕ) :
    (Soc.run clkPerBit pollBoard pollInput n).halt (pollInput n) =
      decide (9 ≤ n ∧ n < 2300) := by
  rw [Soc.halt, (pollBoard_dbg n).2, Bool.true_and]
  rfl

private theorem pollBoard_core (n : ℕ) (after : 9 ≤ n) (before : n ≤ 2300) :
    (Soc.run clkPerBit pollBoard pollInput n).core =
      (Soc.run clkPerBit pollBoard pollInput 9).core := by
  induction n, after using Nat.le_induction with
  | base => rfl
  | succ n after ih =>
    have halt : ((Soc.run clkPerBit pollBoard pollInput n).coreIn (pollInput n)).halt = true := by
      rw [Soc.coreIn, pollBoard_halt]
      simp only [decide_eq_true_eq]
      omega
    exact (CpuCore.posedge_halted _ rfl halt).trans (ih (by omega))

private theorem pollBoard_port (n : ℕ) (after : 9 ≤ n) (before : n ≤ 2300) :
    (Soc.run clkPerBit pollBoard pollInput n).dataPort (pollInput n) =
      (Soc.run clkPerBit pollBoard pollInput 9).dataPort (pollInput 9) := by
  obtain ⟨c, core⟩ : ∃ c, (Soc.run clkPerBit pollBoard pollInput 9).core = .pipelined c := ⟨_, rfl⟩
  rw [Soc.dataPort, Soc.dataPort, pollBoard_core n after before, core]
  rfl

private theorem pollBoard_polls : Polls clkPerBit pollBoard pollInput 2300 := by
  have now := pollBoard_port 2300 (by decide) le_rfl
  have before := pollBoard_port 2299 (by decide) (by decide)
  have prev := Soc.dmemAddrPrev_succ clkPerBit pollBoard pollInput 2299
  constructor
  · rw [pollBoard_halt]
    decide
  · rw [Soc.dmemRe, now]
    decide +kernel
  · rw [Soc.dmemRvalid, prev, Soc.dmemReq, Soc.dmemAddr, Soc.dmemAddr, now, before]
    decide +kernel
  · rw [Soc.dmemAddr, now]
    decide +kernel
  · rw [DebugRegs.dbgMmioValid, (pollBoard_dbg 2300).1]
    rfl

private theorem pollBoard_arrives (n : ℕ) :
    Arrives clkPerBit pollBoard pollInput n ↔ n = 2224 := by
  have line : ∀ j, 267 ≤ j ∨ j < 50 → (pollInput j).uartRx = true := by
    intro j outside
    have free : ¬(50 ≤ j ∧ j < 50 + clkPerBit) := by
      unfold clkPerBit
      omega
    simp [pollInput, free]
  have rx : (Soc.run clkPerBit pollBoard pollInput n).uart.rx =
      RxFrame.run uartParams clkPerBit idleRx (fun j => (pollInput j).uartRx) n :=
    rx_run (fun _ => rfl) n
  have early : ∀ j < 52,
      (RxFrame.run uartParams clkPerBit idleRx (fun j => (pollInput j).uartRx) j).regIn = true := by
    intro j before
    exact RxFrame.regIn_resting RxFrame.resting_idleRx fun x _ => line x (by omega)
  have late : ∀ j, 2224 ≤ j →
      (RxFrame.run uartParams clkPerBit idleRx (fun j => (pollInput j).uartRx) j).regIn = true := by
    intro j after
    obtain ⟨x, rfl⟩ := Nat.exists_eq_add_of_le' (show 2 ≤ j by omega)
    rw [RxFrame.regIn_run]
    exact line x (by omega)
  have idle := (RxFrame.resting_high RxFrame.resting_idleRx early).1
  have low : (RxFrame.run uartParams clkPerBit idleRx (fun j => (pollInput j).uartRx)
      52).regIn = false := RxFrame.regIn_run 50
  have round : RxFrame.roundClocks clkPerBit = 2172 := by decide
  have pulse := RxFrame.hears_run (by decide) (by decide) idle low
  rw [round] at pulse
  rw [Arrives, rx, UartRx.rxDone]
  rcases Nat.lt_trichotomy n 2224 with before | rfl | after
  · have quiet : (RxFrame.run uartParams clkPerBit idleRx (fun j => (pollInput j).uartRx)
        n).dataDone = false := by
      by_cases start : n ≤ 52
      · exact (RxFrame.resting_high RxFrame.resting_idleRx
          fun j inside => early j (by omega)).2.1
      · obtain ⟨k, rfl⟩ := Nat.exists_eq_add_of_le (show 52 ≤ n by omega)
        exact (RxFrame.within_run (by decide) (by decide) idle low (by omega) (by omega)).2
    rw [quiet]
    exact iff_of_false Bool.false_ne_true (by omega)
  · exact iff_of_true pulse.dataDone rfl
  · obtain ⟨k, rfl⟩ := Nat.exists_eq_add_of_le after.le
    have quiet := (RxFrame.idle_high (k := k) pulse.state fun j lo _ => late j lo).2 (by omega)
    rw [quiet]
    exact iff_of_false Bool.false_ne_true (by omega)

private theorem pollBoard_loop : PollingLoop clkPerBit pollBoard pollInput := by
  constructor
  · intro n arrives
    obtain rfl := (pollBoard_arrives n).mp arrives
    refine ⟨2300, by decide, pollBoard_polls, ?_⟩
    intro x after _ again
    have same := (pollBoard_arrives x).mp again
    omega
  · intro q polls seen
    obtain rfl := (pollBoard_arrives q).mp ((bit1_iff_arrives polls).mp seen)
    have running := polls.running
    rw [pollBoard_halt] at running
    exact absurd running (by decide)

end Example

end RiscvSoc.Fpga.UartReceive
