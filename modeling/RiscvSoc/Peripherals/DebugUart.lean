/- GID: RiscvSoc/Peripherals/DebugUart
   generality: G
   utility: model
   digest: The debug command FSM with its transmitter; received bytes enter as pulses. -/

import RiscvSoc.Cpu.Decoder
import RiscvSoc.Peripherals.Uart

set_option autoImplicit false
set_option relaxedAutoImplicit false

namespace RiscvSoc.Peripherals.DebugUart

open RiscvSoc.Cpu.Decoder
open RiscvSoc.Memory.ByteLanes
open RiscvSoc.Peripherals.Uart

/-- The command bytes. -/
inductive Command where
  | halt
  | resume
  | step
  | readReg
  | readPc
  | readAll
  | writeMem
  | readMem
  | readCsr
  | readMmio
  deriving DecidableEq

namespace Command

def code : Command → Byte
  | halt => 0x01
  | resume => 0x02
  | step => 0x03
  | readReg => 0x04
  | readPc => 0x05
  | readAll => 0x06
  | writeMem => 0x07
  | readMem => 0x08
  | readCsr => 0x09
  | readMmio => 0x0A

/-- The case analysis of a received byte; any other byte is ignored. -/
def ofByte (b : Byte) : Option Command :=
  [halt, resume, step, readReg, readPc, readAll, readCsr, writeMem, readMem, readMmio].find?
    fun c => b == c.code

theorem ofByte_code (c : Command) : ofByte c.code = some c := by cases c <;> rfl

end Command

inductive State where
  | cmdIdle
  | waitArg
  | stepAssert
  | stepDeassert
  | sendLoad
  | sendByteStart
  | sendByteWaitBusy
  | sendByteWaitDone
  | recvMemAddr
  | recvMemData
  | memWritePulse
  | memReadWait
  | memReadLatch
  | waitArgCsr
  | recvMmioAddr
  | mmioReadWait
  | mmioReadLatch
  deriving DecidableEq

def timeoutBitPeriods : ℕ := 20

/-- `CLK_BITS = 16`, no parity, two stop bits: both UARTs of the board. -/
def uartParams : UartParams where
  clkBits := 16
  parityBits := 0
  stopBits := 2

/-- The FSM registers of `debug_uart`. -/
@[ext] structure DebugRegs where
  state : State
  halt : Bool
  wordSel : BitVec 6
  wordCount : BitVec 6
  byteSel : BitVec 2
  curWord : Word
  memAddr : Word
  memWdata : Word
  rxByteIdx : BitVec 2
  memIsWrite : Bool
  csrAddrPending : BitVec 16
  csrByteIdx : Bool
  readingCsr : Bool
  mmioAddr : Word
  rxTimeoutCnt : Word
  txEn : Bool
  txData : Byte
  deriving DecidableEq

/-- `debug_uart` with its transmitter and without its receiver. -/
structure DbgUart where
  fsm : DebugRegs
  tx : UartTx

/-- What `debug_uart` samples: the receiver's pulse and byte, and the read data of the core, of
BRAM port B and of the peripherals. -/
structure DebugIn where
  rst : Bool
  rxDone : Bool
  rxData : Byte
  dbgRegData : Word
  pcDbg : Word
  dbgCsrData : Word
  dbgMemRdata : Word
  dbgMmioRdata : Word

/-- `w[8*k +: 8] <= b` on a 16-bit register. -/
def setByte16 (w : BitVec 16) (high : Bool) (b : Byte) : BitVec 16 :=
  if high then b ++ w.extractLsb' 0 8 else w.extractLsb' 8 8 ++ b

namespace DebugRegs

def dbgRegAddr (s : DebugRegs) : Reg := s.wordSel.extractLsb' 0 5
def dbgCsrAddr (s : DebugRegs) : CsrAddr := s.csrAddrPending.extractLsb' 0 12
def dbgMemWe (s : DebugRegs) : Bool := s.state == .memWritePulse

def dbgMemValid (s : DebugRegs) : Bool :=
  s.state == .memWritePulse || s.state == .memReadWait || s.state == .memReadLatch

def dbgMmioValid (s : DebugRegs) : Bool := s.state == .mmioReadWait || s.state == .mmioReadLatch

/-- `rx_timeout_cnt >= clk_per_bit * TIMEOUT_BIT_PERIODS`, a 32-bit product. -/
def timedOut (clkPerBit : ℕ) (s : DebugRegs) : Bool :=
  decide (clkPerBit * timeoutBitPeriods % 2 ^ 32 ≤ s.rxTimeoutCnt.toNat)

/-- The registers an edge in `CMD_IDLE` changes on a command byte. Memory and peripherals are
accessible only while halted. -/
def command (s : DebugRegs) : Command → DebugRegs
  | .halt => { s with halt := true }
  | .resume => { s with halt := false }
  | .step => { s with state := .stepAssert }
  | .readReg => { s with rxTimeoutCnt := 0, state := .waitArg }
  | .readPc => { s with wordSel := 32, wordCount := 1, readingCsr := false, state := .sendLoad }
  | .readAll => { s with wordSel := 0, wordCount := 33, readingCsr := false, state := .sendLoad }
  | .readCsr => { s with csrByteIdx := false, rxTimeoutCnt := 0, state := .waitArgCsr }
  | .writeMem =>
    if s.halt then
      { s with memIsWrite := true, rxByteIdx := 0, rxTimeoutCnt := 0, state := .recvMemAddr }
    else s
  | .readMem =>
    if s.halt then
      { s with memIsWrite := false, rxByteIdx := 0, rxTimeoutCnt := 0, state := .recvMemAddr }
    else s
  | .readMmio =>
    if s.halt then { s with rxByteIdx := 0, rxTimeoutCnt := 0, state := .recvMmioAddr } else s

/-- The states that wait for an argument byte. -/
def awaits (s : DebugRegs) : Bool :=
  match s.state with
  | .waitArg | .waitArgCsr | .recvMemAddr | .recvMemData | .recvMmioAddr => true
  | _ => false

/-- Such a state on an argument byte. All but `WAIT_ARG` restart the timeout. -/
def argument (s : DebugRegs) (rxData : Byte) : DebugRegs :=
  match s.state with
  | .waitArg =>
    { s with
      wordSel := 0#1 ++ rxData.extractLsb' 0 5, wordCount := 1, readingCsr := false
      state := .sendLoad }
  | .waitArgCsr =>
    let t := { s with
      csrAddrPending := setByte16 s.csrAddrPending s.csrByteIdx rxData, rxTimeoutCnt := 0 }
    if s.csrByteIdx then { t with wordCount := 1, readingCsr := true, state := .sendLoad }
    else { t with csrByteIdx := true }
  | .recvMemAddr =>
    let t := { s with
      memAddr := setLane s.memAddr s.rxByteIdx.toNat rxData, rxTimeoutCnt := 0 }
    if s.rxByteIdx = 3 then
      { t with rxByteIdx := 0, state := if s.memIsWrite then .recvMemData else .memReadWait }
    else { t with rxByteIdx := s.rxByteIdx + 1 }
  | .recvMemData =>
    let t := { s with
      memWdata := setLane s.memWdata s.rxByteIdx.toNat rxData, rxTimeoutCnt := 0 }
    if s.rxByteIdx = 3 then { t with rxByteIdx := 0, state := .memWritePulse }
    else { t with rxByteIdx := s.rxByteIdx + 1 }
  | .recvMmioAddr =>
    let t := { s with
      mmioAddr := setLane s.mmioAddr s.rxByteIdx.toNat rxData, rxTimeoutCnt := 0 }
    if s.rxByteIdx = 3 then { t with rxByteIdx := 0, state := .mmioReadWait }
    else { t with rxByteIdx := s.rxByteIdx + 1 }
  | _ => s

/-- An edge outside reset; `t` already holds the two default assignments. -/
def advance (clkPerBit : ℕ) (s : DebugRegs) (txBusy : Bool) (i : DebugIn) : DebugRegs :=
  let t := { s with txEn := false, rxTimeoutCnt := s.rxTimeoutCnt + 1 }
  match s.state with
  | .cmdIdle =>
    if i.rxDone then
      match Command.ofByte i.rxData with
      | some c => t.command c
      | none => t
    else t
  | .waitArg | .waitArgCsr | .recvMemAddr | .recvMemData | .recvMmioAddr =>
    if i.rxDone then t.argument i.rxData
    else if s.timedOut clkPerBit then { t with state := .cmdIdle }
    else t
  | .stepAssert => { t with halt := false, state := .stepDeassert }
  | .stepDeassert => { t with halt := true, state := .cmdIdle }
  | .sendLoad =>
    { t with
      curWord :=
        if s.readingCsr then i.dbgCsrData
        else if s.wordSel < 32 then i.dbgRegData else i.pcDbg
      byteSel := 0, state := .sendByteStart }
  | .sendByteStart =>
    if !txBusy then
      { t with
        txData := lane s.curWord s.byteSel.toNat
        txEn := true, state := .sendByteWaitBusy }
    else t
  | .sendByteWaitBusy => if txBusy then { t with state := .sendByteWaitDone } else t
  | .sendByteWaitDone =>
    if !txBusy then
      if s.byteSel = 3 then
        if s.wordCount = 1 then { t with state := .cmdIdle }
        else
          { t with
            wordSel := s.wordSel + 1, wordCount := s.wordCount - 1, state := .sendLoad }
      else { t with byteSel := s.byteSel + 1, state := .sendByteStart }
    else t
  | .memWritePulse => { t with state := .cmdIdle }
  | .memReadWait => { t with state := .memReadLatch }
  | .memReadLatch =>
    { t with curWord := i.dbgMemRdata, wordCount := 1, byteSel := 0, state := .sendByteStart }
  | .mmioReadWait => { t with state := .mmioReadLatch }
  | .mmioReadLatch =>
    { t with
      curWord := i.dbgMmioRdata, wordCount := 1, byteSel := 0, readingCsr := false
      state := .sendByteStart }

/-- The registers a reset edge leaves. It halts the core; `tx_data` has no reset. -/
def reset (txData : Byte) : DebugRegs where
  state := .cmdIdle
  halt := true
  wordSel := 0
  wordCount := 0
  byteSel := 0
  curWord := 0
  memAddr := 0
  memWdata := 0
  rxByteIdx := 0
  memIsWrite := false
  csrAddrPending := 0
  csrByteIdx := false
  readingCsr := false
  mmioAddr := 0
  rxTimeoutCnt := 0
  txEn := false
  txData := txData

/-- The states in which a memory or peripheral address is awaited or in use. -/
def inAccess (s : DebugRegs) : Bool :=
  match s.state with
  | .recvMemAddr | .recvMemData | .memWritePulse | .memReadWait | .memReadLatch
  | .recvMmioAddr | .mmioReadWait | .mmioReadLatch => true
  | _ => false

private theorem inAccess_command {s : DebugRegs} {c : Command} (idle : s.state = .cmdIdle)
    (access : (s.command c).inAccess = true) : (s.command c).halt = s.halt ∧ s.halt = true := by
  have outside : s.inAccess = false := by rw [inAccess, idle]
  cases c with
  | halt | resume | step | readReg | readPc | readAll | readCsr =>
    simp [command, inAccess, idle] at access
  | writeMem | readMem | readMmio =>
    by_cases halt : s.halt = true
    · simp [command, halt]
    · simp [command, halt, outside] at access

@[simp] theorem halt_argument (s : DebugRegs) (b : Byte) : (s.argument b).halt = s.halt := by
  unfold argument
  repeat' split
  all_goals rfl

@[simp] theorem txEn_argument (s : DebugRegs) (b : Byte) : (s.argument b).txEn = s.txEn := by
  unfold argument
  repeat' split
  all_goals rfl

@[simp] theorem txEn_command (s : DebugRegs) (c : Command) : (s.command c).txEn = s.txEn := by
  unfold command
  repeat' split
  all_goals rfl

private theorem inAccess_argument {s : DebugRegs} {b : Byte}
    (access : (s.argument b).inAccess = true) :
    s.inAccess = true := by
  revert access
  cases state : s.state <;> simp only [argument, state, inAccess, implies_true, imp_self]
  by_cases second : s.csrByteIdx = true <;> simp [second]

/-- An access starts from `CMD_IDLE` in the halted state only, and none of its states changes
`halt`. -/
private theorem inAccess_advance {clkPerBit : ℕ} {s : DebugRegs} {txBusy : Bool} {i : DebugIn}
    (access : (s.advance clkPerBit txBusy i).inAccess = true) :
    (s.advance clkPerBit txBusy i).halt = s.halt ∧
      (s.inAccess = true ∨ s.state = .cmdIdle ∧ s.halt = true) := by
  revert access
  cases state : s.state <;> simp only [advance, state]
  case cmdIdle =>
    split
    · split
      · exact fun access =>
          (inAccess_command (by rfl) access).imp id fun halt => Or.inr ⟨trivial, halt⟩
      · exact fun access => absurd access (by simp [inAccess])
    · exact fun access => absurd access (by simp [inAccess])
  case recvMemAddr | recvMemData | recvMmioAddr =>
    have inside : s.inAccess = true := by rw [inAccess, state]
    split
    · exact fun _ => ⟨halt_argument _ _, Or.inl inside⟩
    · split <;> exact fun _ => ⟨rfl, Or.inl inside⟩
  case memReadWait | mmioReadWait =>
    exact fun _ => ⟨trivial, Or.inl (by rw [inAccess, state])⟩
  case waitArg | waitArgCsr =>
    split
    · exact fun access => absurd (inAccess_argument access) (by simp [inAccess])
    · split <;> exact fun access => absurd access (by simp [inAccess])
  all_goals
    repeat' split
    all_goals exact fun access => absurd access (by simp [inAccess])

theorem inAccess_of_dbgMemValid {s : DebugRegs} (valid : s.dbgMemValid = true) :
    s.inAccess = true := by
  cases state : s.state <;> simp [dbgMemValid, inAccess, state] at valid ⊢

theorem dbgMemValid_of_dbgMemWe {s : DebugRegs} (we : s.dbgMemWe = true) :
    s.dbgMemValid = true := by
  simp only [dbgMemWe, beq_iff_eq] at we
  simp [dbgMemValid, we]

theorem inAccess_of_dbgMmioValid {s : DebugRegs} (valid : s.dbgMmioValid = true) :
    s.inAccess = true := by
  cases state : s.state <;> simp [dbgMmioValid, inAccess, state] at valid ⊢

private theorem halt_advance_of_dbgMemValid {clkPerBit : ℕ} {s : DebugRegs} {txBusy : Bool}
    {i : DebugIn}
    (valid : s.dbgMemValid = true) : (s.advance clkPerBit txBusy i).halt = s.halt := by
  cases state : s.state <;> simp [dbgMemValid, state] at valid <;> simp [advance, state]

/-- Memory and peripherals are accessed only on behalf of a halted core. -/
def HaltedAccess (s : DebugRegs) : Prop := s.inAccess = true → s.halt = true

end DebugRegs

namespace DbgUart

/-- One clock edge of the FSM and of its transmitter, each reading the other's registers of
before the edge. -/
def posedge (clkPerBit : ℕ) (s : DbgUart) (i : DebugIn) : DbgUart where
  fsm := if i.rst then .reset s.fsm.txData else s.fsm.advance clkPerBit s.tx.busy i
  tx := s.tx.posedge uartParams clkPerBit i.rst s.fsm.txData s.fsm.txEn

theorem haltedAccess_reset (clkPerBit : ℕ) (s : DbgUart) {i : DebugIn} (rst : i.rst = true) :
    (s.posedge clkPerBit i).fsm.HaltedAccess := by
  simp [posedge, rst, DebugRegs.HaltedAccess, DebugRegs.reset]

theorem haltedAccess_posedge {clkPerBit : ℕ} {s : DbgUart} (inv : s.fsm.HaltedAccess)
    (i : DebugIn) : (s.posedge clkPerBit i).fsm.HaltedAccess := by
  by_cases rst : i.rst = true
  · exact haltedAccess_reset clkPerBit s rst
  · intro access
    simp only [posedge, rst] at access ⊢
    obtain ⟨same, inside | ⟨-, halt⟩⟩ := DebugRegs.inAccess_advance access
    · exact same.trans (inv inside)
    · exact same.trans halt

/-- A clock that used the memory port is followed by a halted one. -/
theorem halt_after_dbgMemValid {clkPerBit : ℕ} {s : DbgUart} (inv : s.fsm.HaltedAccess)
    (i : DebugIn) (valid : s.fsm.dbgMemValid = true) :
    (s.posedge clkPerBit i).fsm.halt = true := by
  by_cases rst : i.rst = true
  · simp [posedge, rst, DebugRegs.reset]
  · simp only [posedge, rst]
    exact (DebugRegs.halt_advance_of_dbgMemValid valid).trans
      (inv (DebugRegs.inAccess_of_dbgMemValid valid))

end DbgUart

end RiscvSoc.Peripherals.DebugUart
