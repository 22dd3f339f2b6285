/- GID: RiscvSoc/Fpga/HaltedBoard
   generality: G
   utility: support
   digest: A halted board as the debug UART sees it: what stands still and what a reply shows. -/

import RiscvSoc.Fpga.HaltedCore
import RiscvSoc.Peripherals.DebugExchange

set_option autoImplicit false
set_option relaxedAutoImplicit false

namespace RiscvSoc.Fpga.HaltedBoard

open RiscvSoc.Clocked.Trajectory
open RiscvSoc.Cpu.Decoder
open RiscvSoc.Cpu.Datapath
open RiscvSoc.Memory.ByteLanes
open RiscvSoc.Memory.DpRam
open RiscvSoc.Peripherals.Timer
open RiscvSoc.Peripherals.DebugUart
open RiscvSoc.Peripherals.DebugReply
open RiscvSoc.Peripherals.DebugReceive
open RiscvSoc.Peripherals.DebugRequest
open RiscvSoc.Peripherals.DebugExchange
open RiscvSoc.Fpga.RiscvTop
open RiscvSoc.Fpga.HaltedCore

section Specification

/-- The word last written by WRITE_MEM to an address with these bits [13:2], else the one that
was there initially. -/
def lastWritten (initial : BramAddr → Word) (before : List Request) (index : BramAddr) : Word :=
  (before.reverse.findSome? fun
    | .writeMem addr data => if wordIndex addr = index then some data else none
    | _ => none).getD (initial index)

def pc : CpuCore → Word
  | .pipelined s => s.pc
  | .singleCycle s => s.pc

/-- The UART or timer register at an address, while nothing is stored to the UART's TX. -/
def mmioRegister (s : Soc) (addr : Word) : Word :=
  if inUart addr then
    if regIndex addr = 0b01 then s.uart.rx.rxOut.setWidth 32
    else if regIndex addr = 0b10 then
      (BitVec.ofBool s.uart.rx.rxDone ++ BitVec.ofBool s.uart.tx.busy).setWidth 32
    else 0
  else if inTimer addr then s.timer.readReg (regIndex addr)
  else 0

variable (clkPerBit : ℕ) (s : Soc) (input : ℕ → SocIn)

/-- The bytes the receiver of the debug UART shows. -/
def line (n : ℕ) : Option Byte := if (input n).rxDone then some (input n).rxData else none

/-- The bytes the debug UART has sent before clock `n`. -/
def sentBytes : ℕ → List Byte :=
  emitted (Soc.posedge clkPerBit) (fun t _ => completed t.dbg) s input

/-- The words of the reply to a command after the commands `before`. Timer and UART count on
while the core is halted: their registers, and mip, are those of the clock they are latched in. -/
def answer (before : List Request) (e : Exchange) : List Word :=
  match e.request with
  | .halt | .writeMem _ _ => []
  | .readReg idx => [s.core.regfile.port idx]
  | .readPc => [pc s.core]
  | .readAll => ((List.range 32).map fun k => s.core.regfile.port (BitVec.ofNat 5 k)) ++ [pc s.core]
  | .readMem addr => [lastWritten s.bram.mem before (wordIndex addr)]
  | .readCsr addr =>
    [s.core.dbgCsrData (Soc.run clkPerBit s input (e.last + 1)).timerIrq (addr.extractLsb' 0 12)]
  | .readMmio addr => [mmioRegister (Soc.run clkPerBit s input (e.last + 2)) addr]

/-- Neither reset nor KEY[1] is pressed. -/
def HandsOff (clocks : ℕ) : Prop := ∀ n < clocks, (input n).rst = false ∧ (input n).key1 = true

/-- No store of the core is on the data port. -/
def Storeless (clocks : ℕ) : Prop :=
  ∀ n < clocks, (Soc.run clkPerBit s input n).dmemWe (input n) = false

end Specification

section Clocks

variable {clkPerBit : ℕ} {s : Soc} {input : ℕ → SocIn} {clocks : ℕ}

def debugInput (clkPerBit : ℕ) (s : Soc) (input : ℕ → SocIn) (n : ℕ) : DebugIn :=
  { (Soc.run clkPerBit s input n).debugIn (input n) with rst := false }

/-- The debug UART of the board runs on its own. -/
theorem dbg_run (clkPerBit : ℕ) (s : Soc) (calm : HandsOff input clocks) {n : ℕ}
    (inside : n ≤ clocks) :
    (Soc.run clkPerBit s input n).dbg =
        run clkPerBit s.dbg (debugInput clkPerBit s input) n ∧
      sentBytes clkPerBit s input n =
        sent clkPerBit s.dbg (debugInput clkPerBit s input) n := by
  induction n with
  | zero => exact ⟨rfl, rfl⟩
  | succ n ih =>
    obtain ⟨same, log⟩ := ih (by omega)
    have noRst := (calm n (by omega)).1
    refine ⟨?_, ?_⟩
    · rw [run_succ clkPerBit s.dbg (i := debugInput clkPerBit s input) (fun _ => rfl), ← same]
      simp [Soc.posedge, DbgUart.posedge, debugInput, Soc.debugIn, noRst, trajectory_succ]
    · rw [sent_succ, ← same, ← log]
      rfl

theorem dbg_upto (clkPerBit : ℕ) (s : Soc) (calm : HandsOff input clocks) {stop : ℕ}
    (inside : stop ≤ clocks) :
    ∀ k ≤ stop, (Soc.run clkPerBit s input k).dbg =
      run clkPerBit s.dbg (debugInput clkPerBit s input) k := by
  intro k le
  exact (dbg_run clkPerBit s calm (le.trans inside)).1

/-- Over halted clocks the core stands still. -/
theorem core_halted (calm : HandsOff input clocks) {m n : ℕ} (le : m ≤ n) (inside : n ≤ clocks)
    (halt : ∀ k, m ≤ k → k < n → (Soc.run clkPerBit s input k).dbg.fsm.halt = true) :
    (Soc.run clkPerBit s input n).core = (Soc.run clkPerBit s input m).core := by
  induction n, le using Nat.le_induction with
  | base => rfl
  | succ n le ih =>
    obtain ⟨rst, key1⟩ := calm n (by omega)
    have still := CpuCore.posedge_halted (Soc.run clkPerBit s input n).core
      (i := (Soc.run clkPerBit s input n).coreIn (input n)) rst
      (by simp [Soc.coreIn, Soc.halt, halt n le (by omega), key1])
    exact still.trans (ih (by omega) fun k lo hi => halt k lo (by omega))

/-- Without stores of the core the memory changes by WRITE_MEM only. -/
theorem mem_clock (free : Storeless clkPerBit s input clocks) {n : ℕ} (inside : n < clocks) :
    (Soc.run clkPerBit s input (n + 1)).bram.mem =
      if (Soc.run clkPerBit s input n).dbg.fsm.dbgMemWe then
        Function.update (Soc.run clkPerBit s input n).bram.mem
          (wordIndex (Soc.run clkPerBit s input n).dbg.fsm.memAddr)
          (Soc.run clkPerBit s input n).dbg.fsm.memWdata
      else (Soc.run clkPerBit s input n).bram.mem := by
  have still : devices ((Soc.run clkPerBit s input n).posedge clkPerBit (input n)) = _ :=
    devices_posedge (by simp [storeOnDevice, free n inside])
  exact congrArg Devices.mem still

theorem mem_unwritten (free : Storeless clkPerBit s input clocks) {m n : ℕ} (le : m ≤ n)
    (inside : n ≤ clocks)
    (noWrite : ∀ k, m ≤ k → k < n → (Soc.run clkPerBit s input k).dbg.fsm.dbgMemWe = false) :
    (Soc.run clkPerBit s input n).bram.mem = (Soc.run clkPerBit s input m).bram.mem := by
  induction n, le using Nat.le_induction with
  | base => rfl
  | succ n le ih =>
    have next := mem_clock free (show n < clocks by omega)
    rw [noWrite n le (by omega)] at next
    exact next.trans (ih (by omega) fun k lo hi => noWrite k lo (by omega))

theorem lastWritten_append (initial : BramAddr → Word) (before : List Request) (q : Request) :
    lastWritten initial (before ++ [q]) =
      match q with
      | .writeMem addr data => Function.update (lastWritten initial before) (wordIndex addr) data
      | _ => lastWritten initial before := by
  funext index
  cases q with
  | writeMem addr data =>
    by_cases same : wordIndex addr = index
    · subst same
      simp [lastWritten]
    · simp [lastWritten, same, Function.update_of_ne (Ne.symm same)]
  | _ => simp [lastWritten]

theorem lastWritten_reads (initial : BramAddr → Word) (before : List Request) {q : Request}
    (reads : ∀ addr data, q ≠ .writeMem addr data) :
    lastWritten initial (before ++ [q]) = lastWritten initial before := by
  rw [lastWritten_append]
  cases q with
  | writeMem addr data => exact absurd rfl (reads addr data)
  | _ => rfl

end Clocks

section Words

variable {clkPerBit : ℕ} {s : Soc} {input : ℕ → SocIn} {clocks k : ℕ}

/-- The word `SEND_LOAD` finds for a selector: a register, or pc. -/
def selected (core : CpuCore) (wordSel : BitVec 6) : Word :=
  if wordSel < 32 then core.regfile.port (wordSel.extractLsb' 0 5) else pc core

private theorem selected_reg (core : CpuCore) (idx : Reg) :
    selected core (0#1 ++ idx) = core.regfile.port idx := by
  have small : (0#1 ++ idx : BitVec 6) < 32 := by revert idx; decide
  have back : (0#1 ++ idx : BitVec 6).extractLsb' 0 5 = idx := by revert idx; decide
  rw [selected, if_pos small, back]

private theorem selected_ofNat (core : CpuCore) {j : ℕ} (small : j < 32) :
    selected core (BitVec.ofNat 6 j) = core.regfile.port (BitVec.ofNat 5 j) := by
  have bits : BitVec.ofNat 6 j < 32 ∧ (BitVec.ofNat 6 j).extractLsb' 0 5 = BitVec.ofNat 5 j := by
    revert small; revert j; decide
  rw [selected, if_pos bits.1, bits.2]

private theorem latched_board (calm : HandsOff input clocks) (inside : k < clocks)
    (core : (Soc.run clkPerBit s input k).core = s.core) :
    latched clkPerBit s.dbg (debugInput clkPerBit s input) k =
      let r := (run clkPerBit s.dbg (debugInput clkPerBit s input) k).fsm
      if r.readingCsr then
        s.core.dbgCsrData (Soc.run clkPerBit s input k).timerIrq r.dbgCsrAddr
      else selected s.core r.wordSel := by
  have same := (dbg_run clkPerBit s calm inside.le).1
  have rst := (calm k inside).1
  have shown : (Soc.run clkPerBit s input k).imemAddr (input k) = pc s.core := by
    rw [Soc.imemAddr, core, rst]
    cases s.core <;> rfl
  simp only [latched, loaded, debugInput, Soc.debugIn, shown, core, selected, CpuCore.dbgRegData,
    DebugRegs.dbgRegAddr, ← same]

private theorem dbgMemRdata_board (calm : HandsOff input clocks) (inside : k < clocks)
    (valid : (run clkPerBit s.dbg (debugInput clkPerBit s input) k).fsm.dbgMemValid = true) :
    (debugInput clkPerBit s input (k + 1)).dbgMemRdata =
      (Soc.run clkPerBit s input (k + 1)).bram.mem
        (wordIndex (run clkPerBit s.dbg (debugInput clkPerBit s input) k).fsm.memAddr) := by
  rw [← (dbg_run clkPerBit s calm inside.le).1] at valid ⊢
  have address : (Soc.run clkPerBit s input (k + 1)).bram.addressBR =
      wordIndex (Soc.run clkPerBit s input k).dbg.fsm.memAddr := by
    simp [trajectory_succ, Soc.posedge, Bram.posedge, Soc.bramIn, valid]
  exact congrArg _ address

private theorem dbgMmioRdata_eq {t : Soc} {i : SocIn} (valid : t.dbg.fsm.dbgMmioValid = true)
    (free : t.dmemWe i = false) : t.dbgMmioRdata i = mmioRegister t t.dbg.fsm.mmioAddr := by
  have steer : t.periphAddr i = t.dbg.fsm.mmioAddr := by simp [Soc.periphAddr, valid]
  have noTx : t.uartTxData i = 0 := by simp [Soc.uartTxData, Soc.uartTxEn, free]
  have reg : t.timerRdData i =
      if inTimer t.dbg.fsm.mmioAddr then t.timer.readReg (regIndex t.dbg.fsm.mmioAddr) else 0 := by
    simp [Soc.timerRdData, TimerRegs.rdata, Soc.timerIn, Soc.timerSel, steer, valid, regIndex]
  simp only [Soc.dbgMmioRdata, Soc.uartSel, Soc.timerSel, mmioRegister, Soc.uartRdData, steer, noTx,
    reg]
  by_cases uart : inUart t.dbg.fsm.mmioAddr = true
  · rw [if_pos uart, if_pos uart]
    by_cases tx : regIndex t.dbg.fsm.mmioAddr = 0b00
    · simp [tx]
    · rw [if_neg tx]
  · rw [if_neg uart, if_neg uart]
    by_cases timer : inTimer t.dbg.fsm.mmioAddr = true <;> simp [timer]

private theorem dbgMmioRdata_board (calm : HandsOff input clocks)
    (free : Storeless clkPerBit s input clocks) (inside : k < clocks)
    (valid : (run clkPerBit s.dbg (debugInput clkPerBit s input) k).fsm.dbgMmioValid = true) :
    (debugInput clkPerBit s input k).dbgMmioRdata =
      mmioRegister (Soc.run clkPerBit s input k)
        (run clkPerBit s.dbg (debugInput clkPerBit s input) k).fsm.mmioAddr := by
  rw [← (dbg_run clkPerBit s calm inside.le).1] at valid ⊢
  exact dbgMmioRdata_eq valid (free k inside)

private theorem latched_load (pos : 0 < clkPerBit) (fits : clkPerBit < 2 ^ 16)
    (calm : HandsOff input clocks) {r : DebugRegs} {n count : ℕ}
    (here : Settled r (run clkPerBit s.dbg (debugInput clkPerBit s input) n))
    (state : r.state = .sendLoad) (halt : r.halt = true)
    (wordCount : r.wordCount = BitVec.ofNat 6 (count + 1)) (bound : count + 1 < 64)
    (inside : n + (count + 1) * loadClocks clkPerBit ≤ clocks)
    (core : ∀ j, n ≤ j → j ≤ n + (count + 1) * loadClocks clkPerBit →
      (Soc.run clkPerBit s input j).core = s.core) {k : ℕ} (le : k ≤ count) :
    latched clkPerBit s.dbg (debugInput clkPerBit s input) (n + k * loadClocks clkPerBit) =
      if r.readingCsr then
        s.core.dbgCsrData (Soc.run clkPerBit s input (n + k * loadClocks clkPerBit)).timerIrq
          (run clkPerBit s.dbg (debugInput clkPerBit s input)
            (n + k * loadClocks clkPerBit)).fsm.dbgCsrAddr
      else selected s.core (r.wordSel + BitVec.ofNat 6 k) := by
  have positive : 0 < loadClocks clkPerBit := Nat.succ_pos _
  obtain ⟨csr, sel⟩ := selected_word pos fits (fun _ => rfl) here halt state count wordCount
    bound k le
  have within : k * loadClocks clkPerBit + loadClocks clkPerBit ≤
      (count + 1) * loadClocks clkPerBit := by
    rw [← Nat.succ_mul]
    exact Nat.mul_le_mul_right _ (by omega)
  rw [latched_board calm (by omega) (core _ (by omega) (by omega))]
  simp only [csr, sel]

private theorem latched_readMem (calm : HandsOff input clocks) {r : DebugRegs} {addr : Word} {n : ℕ}
    (here : Settled (Request.received r (.readMem addr))
      (run clkPerBit s.dbg (debugInput clkPerBit s input) n)) (inside : n < clocks) :
    (debugInput clkPerBit s input (n + 1)).dbgMemRdata =
      (Soc.run clkPerBit s input (n + 1)).bram.mem (wordIndex addr) := by
  have valid : (run clkPerBit s.dbg (debugInput clkPerBit s input) n).fsm.dbgMemValid = true :=
    (congrArg DebugRegs.dbgMemValid here.fsm :)
  have address : (run clkPerBit s.dbg (debugInput clkPerBit s input) n).fsm.memAddr = addr :=
    (congrArg DebugRegs.memAddr here.fsm :)
  have data := dbgMemRdata_board calm inside valid
  rwa [address] at data

private theorem latched_readMmio (calm : HandsOff input clocks)
    (free : Storeless clkPerBit s input clocks)
    {r : DebugRegs} {addr : Word} {n : ℕ}
    (here : Settled (Request.received r (.readMmio addr))
      (run clkPerBit s.dbg (debugInput clkPerBit s input) n)) (inside : n + 1 < clocks) :
    (debugInput clkPerBit s input (n + 1)).dbgMmioRdata =
      mmioRegister (Soc.run clkPerBit s input (n + 1)) addr := by
  obtain ⟨latch, -⟩ := settled_access (fun _ => rfl) here rfl
  obtain ⟨latching, kept⟩ := advance_mmioReadWait (q := Request.received r (.readMmio addr))
    clkPerBit false (debugInput clkPerBit s input n) rfl
  have valid : (run clkPerBit s.dbg (debugInput clkPerBit s input) (n + 1)).fsm.dbgMmioValid =
      true := by
    rw [DebugRegs.dbgMmioValid, (state_of_settled latch).trans latching]
    rfl
  have address : (run clkPerBit s.dbg (debugInput clkPerBit s input) (n + 1)).fsm.mmioAddr =
      addr := (mmioAddr_of_settled latch).trans kept
  have data := dbgMmioRdata_board calm free inside valid
  rwa [address] at data

/-- The words of a reply are those the host asked for. -/
theorem latchedWords_board (pos : 0 < clkPerBit) (fits : clkPerBit < 2 ^ 16)
    (calm : HandsOff input clocks) (free : Storeless clkPerBit s input clocks) {r : DebugRegs}
    (halt : r.halt = true) (before : List Request) (e : Exchange)
    (here : Settled (e.request.received r)
      (run clkPerBit s.dbg (debugInput clkPerBit s input) (e.last + 1)))
    (inside : e.last + 1 + e.request.replyClocks clkPerBit ≤ clocks)
    (core : ∀ k, e.last < k → k ≤ e.last + 1 + e.request.replyClocks clkPerBit →
      (Soc.run clkPerBit s input k).core = s.core)
    (mem : (∀ addr data, e.request ≠ .writeMem addr data) →
      ∀ k, e.last < k → k ≤ e.last + 1 + e.request.replyClocks clkPerBit →
        (Soc.run clkPerBit s input k).bram.mem = lastWritten s.bram.mem before) :
    e.request.latchedWords clkPerBit s.dbg (debugInput clkPerBit s input) (e.last + 1) =
      answer clkPerBit s input before e := by
  obtain ⟨q, first, last, stop⟩ := e
  have load := fun (count : ℕ) (state : (q.received r).state = .sendLoad)
      (on : (q.received r).halt = true) (wordCount : (q.received r).wordCount =
        BitVec.ofNat 6 (count + 1)) (bound : count + 1 < 64)
      (past : q.replyClocks clkPerBit = (count + 1) * loadClocks clkPerBit) (k : ℕ)
      (le : k ≤ count) =>
    latched_load pos fits calm here state on wordCount bound (past ▸ inside)
      (fun j lo hi => core j lo (past ▸ hi)) le
  cases q with
  | halt => rfl
  | writeMem addr data => rfl
  | readReg idx =>
    have word := load 0 rfl halt rfl (by decide) (Nat.one_mul _).symm 0 le_rfl
    simp only [Request.received, Bool.false_eq_true, if_false, Nat.zero_mul, Nat.add_zero,
      BitVec.ofNat_eq_ofNat, BitVec.add_zero, selected_reg] at word
    exact congrArg (fun w => [w]) word
  | readPc =>
    have word := load 0 rfl halt rfl (by decide) (Nat.one_mul _).symm 0 le_rfl
    simp only [Request.received, Bool.false_eq_true, if_false, Nat.zero_mul, Nat.add_zero] at word
    exact congrArg (fun w => [w]) word
  | readAll =>
    have word := load 32 rfl halt rfl (by decide) rfl
    simp only [Request.received, Bool.false_eq_true, if_false, BitVec.ofNat_eq_ofNat,
      BitVec.zero_add] at word
    have regs : ∀ k ∈ List.range 32, latched clkPerBit s.dbg (debugInput clkPerBit s input)
        (last + 1 + k * loadClocks clkPerBit) = s.core.regfile.port (BitVec.ofNat 5 k) := by
      intro k inside
      have small := List.mem_range.mp inside
      exact (word k small.le).trans (selected_ofNat _ small)
    rw [Request.latchedWords, List.range_succ, List.map_append, List.map_congr_left regs,
      List.map_singleton, word 32 le_rfl]
    rfl
  | readCsr addr =>
    have word := load 0 rfl halt rfl (by decide) (Nat.one_mul _).symm 0 le_rfl
    simp only [Request.received, if_true, Nat.zero_mul, Nat.add_zero] at word
    have address : (run clkPerBit s.dbg (debugInput clkPerBit s input) (last + 1)).fsm.dbgCsrAddr =
        addr.extractLsb' 0 12 := (congrArg DebugRegs.dbgCsrAddr here.fsm :)
    rw [address] at word
    exact congrArg (fun w => [w]) word
  | readMem addr =>
    simp only [Request.replyClocks] at inside mem
    have data := latched_readMem calm here (show last + 1 < clocks by omega)
    rw [mem (fun _ _ => by simp) (last + 1 + 1) (by omega) (by omega)] at data
    exact congrArg (fun w => [w]) data
  | readMmio addr =>
    simp only [Request.replyClocks] at inside
    have data := latched_readMmio calm free here (show last + 1 + 1 < clocks by omega)
    exact congrArg (fun w => [w]) data

end Words

end RiscvSoc.Fpga.HaltedBoard
