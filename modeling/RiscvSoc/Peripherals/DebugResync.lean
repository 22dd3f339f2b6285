/- GID: RiscvSoc/Peripherals/DebugResync
   generality: G
   utility: main
   digest: Without further bytes the debug FSM is back in CMD_IDLE after a bounded time. -/

import RiscvSoc.Clocked.Ranking
import RiscvSoc.Peripherals.DebugReply

set_option autoImplicit false
set_option relaxedAutoImplicit false

namespace RiscvSoc.Peripherals.DebugResync

open RiscvSoc.Clocked.Ranking
open RiscvSoc.Clocked.Trajectory
open RiscvSoc.Memory.ByteLanes
open RiscvSoc.Peripherals.Uart
open RiscvSoc.Peripherals.DebugUart
open RiscvSoc.Peripherals.DebugReply

section Measure

variable (clkPerBit : ℕ)

def txLeft (t : UartTx) : ℕ :=
  match t.state with
  | .idle => 0
  | .transmit => (11 - t.index) * clkPerBit - t.clkCount + 1
  | .done => 1

/-- Clocks for one byte, from the offer to the next one, and for one word. -/
def byteClocks : ℕ := 11 * clkPerBit + 5
def wordClocks : ℕ := 4 * byteClocks clkPerBit + 1

def replyLeft (r : DebugRegs) : ℕ :=
  (3 - r.byteSel.toNat) * byteClocks clkPerBit + (r.wordCount - 1).toNat * wordClocks clkPerBit

/-- A bound on the clocks until `CMD_IDLE` if no byte is received: the timeout while one is
awaited, else what is left to send. -/
def remaining (v : DbgUart) : ℕ :=
  match v.fsm.state with
  | .cmdIdle => 0
  | .waitArg | .waitArgCsr | .recvMemAddr | .recvMemData | .recvMmioAddr =>
    clkPerBit * timeoutBitPeriods - v.fsm.rxTimeoutCnt.toNat + 1
  | .stepAssert => 2
  | .stepDeassert | .memWritePulse => 1
  | .memReadWait | .mmioReadWait => wordClocks clkPerBit + 1
  | .memReadLatch | .mmioReadLatch => wordClocks clkPerBit
  | .sendLoad => wordClocks clkPerBit + (v.fsm.wordCount - 1).toNat * wordClocks clkPerBit
  | .sendByteStart => byteClocks clkPerBit + replyLeft clkPerBit v.fsm
  | .sendByteWaitBusy =>
    (if v.fsm.txEn then 11 * clkPerBit + 4 else txLeft clkPerBit v.tx + 2) +
      replyLeft clkPerBit v.fsm
  | .sendByteWaitDone => txLeft clkPerBit v.tx + 1 + replyLeft clkPerBit v.fsm

end Measure

section Invariant

/-- FSM and transmitter agree on whose turn it is; a byte offered in `SEND_BYTE_WAIT_BUSY` is
either still on the strobe or on the line, and the counters of a frame are in range. -/
structure Joint (clkPerBit : ℕ) (v : DbgUart) : Prop where
  linked : Linked v
  turn : v.fsm.state = .sendByteWaitBusy → (v.fsm.txEn = true ↔ v.tx.state = .idle)
  counters : v.tx.state = .transmit → v.tx.index < 11 ∧ v.tx.clkCount < clkPerBit

variable {clkPerBit : ℕ} {v : DbgUart} {t : UartTx} {b : Byte} {e : Bool} {i : DebugIn}

private theorem idle_iff_free (linked : Linked v) : v.tx.state = .idle ↔ v.tx.busy = false := by
  rw [linked.busy]
  simp

private theorem Joint.idle_of_txEn (joint : Joint clkPerBit v) (strobe : v.fsm.txEn = true) :
    v.tx.state = .idle :=
  (joint.turn (joint.linked.strobe strobe)).mp strobe

private theorem posedge_bit (last : uartParams.bitEnd clkPerBit = clkPerBit - 1)
    (state : t.state = .transmit) (inside : t.clkCount < clkPerBit - 1)
    (small : clkPerBit < 2 ^ 16) :
    (t.posedge uartParams clkPerBit false b e).state = .transmit ∧
      (t.posedge uartParams clkPerBit false b e).index = t.index ∧
      (t.posedge uartParams clkPerBit false b e).clkCount = t.clkCount + 1 := by
  have count : (t.clkCount + 1) % 2 ^ uartParams.clkBits = t.clkCount + 1 :=
    Nat.mod_eq_of_lt (show t.clkCount + 1 < 2 ^ 16 by omega)
  simp [UartTx.posedge, state, last, inside, count]

private theorem posedge_bitEnd (last : uartParams.bitEnd clkPerBit = clkPerBit - 1)
    (state : t.state = .transmit) (ended : t.clkCount = clkPerBit - 1) (more : t.index < 10) :
    (t.posedge uartParams clkPerBit false b e).state = .transmit ∧
      (t.posedge uartParams clkPerBit false b e).index = t.index + 1 ∧
      (t.posedge uartParams clkPerBit false b e).clkCount = 0 := by
  have size : uartParams.packetSize - 1 = 10 := rfl
  have index : (t.index + 1) % 2 ^ uartParams.indexBits = t.index + 1 := by
    have fits := uartParams.packetSize_le
    exact Nat.mod_eq_of_lt (by omega)
  simp [UartTx.posedge, state, last, ended, size, Nat.ne_of_lt more, index]

private theorem posedge_frameEnd (last : uartParams.bitEnd clkPerBit = clkPerBit - 1)
    (state : t.state = .transmit) (ended : t.clkCount = clkPerBit - 1) (final : t.index = 10) :
    (t.posedge uartParams clkPerBit false b e).state = .done := by
  have size : uartParams.packetSize - 1 = 10 := rfl
  simp [UartTx.posedge, state, last, ended, size, final]

private theorem txLeft_posedge (small : clkPerBit < 2 ^ 16) (pos : 0 < clkPerBit)
    (counters : t.state = .transmit → t.index < 11 ∧ t.clkCount < clkPerBit)
    (sending : t.state ≠ .idle) :
    txLeft clkPerBit (t.posedge uartParams clkPerBit false b e) + 1 = txLeft clkPerBit t := by
  have last : uartParams.bitEnd clkPerBit = clkPerBit - 1 := uartParams.bitEnd_eq pos small
  cases state : t.state with
  | idle => exact absurd state sending
  | done => simp [txLeft, UartTx.posedge, state]
  | transmit =>
    obtain ⟨index, count⟩ := counters state
    obtain ⟨d, later⟩ : ∃ d, 11 - t.index = d + 1 := ⟨10 - t.index, by omega⟩
    have whole : (11 - t.index) * clkPerBit = d * clkPerBit + clkPerBit := by
      rw [later, Nat.succ_mul]
    by_cases inside : t.clkCount < clkPerBit - 1
    · obtain ⟨state', index', count'⟩ := posedge_bit (b := b) (e := e) last state inside small
      simp only [txLeft, state, state', index', count', whole]
      omega
    · have ended : t.clkCount = clkPerBit - 1 := by omega
      by_cases final : t.index = 10
      · have state' := posedge_frameEnd (b := b) (e := e) last state ended final
        obtain rfl : d = 0 := by omega
        simp only [txLeft, state, state', whole, ended]
        omega
      · obtain ⟨state', index', count'⟩ :=
          posedge_bitEnd (b := b) (e := e) last state ended (by omega)
        have bits : 11 - (t.index + 1) = d := by omega
        simp only [txLeft, state, state', index', count', whole, ended, bits]
        omega

private theorem txLeft_start (idle : t.state = .idle) :
    txLeft clkPerBit (t.posedge uartParams clkPerBit false b true) = 11 * clkPerBit + 1 := by
  simp [txLeft, UartTx.posedge, idle]

private theorem counters_posedge (small : clkPerBit < 2 ^ 16) (pos : 0 < clkPerBit)
    (counters : t.state = .transmit → t.index < 11 ∧ t.clkCount < clkPerBit)
    (next : (t.posedge uartParams clkPerBit false b e).state = .transmit) :
    (t.posedge uartParams clkPerBit false b e).index < 11 ∧
      (t.posedge uartParams clkPerBit false b e).clkCount < clkPerBit := by
  have last : uartParams.bitEnd clkPerBit = clkPerBit - 1 := uartParams.bitEnd_eq pos small
  cases state : t.state with
  | idle => cases e <;> simp [UartTx.posedge, state, pos]
  | done => simp [UartTx.posedge, state] at next
  | transmit =>
    obtain ⟨index, count⟩ := counters state
    by_cases inside : t.clkCount < clkPerBit - 1
    · obtain ⟨-, index', count'⟩ := posedge_bit (b := b) (e := e) last state inside small
      omega
    · have ended : t.clkCount = clkPerBit - 1 := by omega
      by_cases final : t.index = 10
      · rw [posedge_frameEnd (b := b) (e := e) last state ended final] at next
        cases next
      · obtain ⟨-, index', count'⟩ :=
          posedge_bitEnd (b := b) (e := e) last state ended (by omega)
        omega

private theorem joint_reset (v : DbgUart) (rst : i.rst = true) :
    Joint clkPerBit (v.posedge clkPerBit i) := by
  refine ⟨⟨?_, ?_, ?_⟩, ?_, ?_⟩ <;>
    simp [DbgUart.posedge, UartTx.posedge, DebugRegs.reset, rst]

private theorem state_command (r : DebugRegs) (c : Command)
    (outside : r.state ≠ .sendByteWaitBusy) :
    (r.command c).state ≠ .sendByteWaitBusy := by
  cases c <;> simp only [DebugRegs.command] <;> (try split) <;> simp [outside]

private theorem state_argument (r : DebugRegs) (c : Byte) (outside : r.state ≠ .sendByteWaitBusy) :
    (r.argument c).state ≠ .sendByteWaitBusy := by
  unfold DebugRegs.argument
  repeat' split
  all_goals simp_all

private theorem turn_advance {r : DebugRegs} {txBusy : Bool}
    (next : (r.advance clkPerBit txBusy i).state = .sendByteWaitBusy) :
    txBusy = false ∧
      (r.state = .sendByteStart ∧ (r.advance clkPerBit txBusy i).txEn = true ∨
        r.state = .sendByteWaitBusy ∧ (r.advance clkPerBit txBusy i).txEn = false) := by
  have away : r.state = .sendByteStart ∨ r.state = .sendByteWaitBusy := by
    by_contra others
    rw [not_or] at others
    revert next
    cases state : r.state <;> simp only [DebugRegs.advance, state]
    case sendByteStart => exact absurd state others.1
    case sendByteWaitBusy => exact absurd state others.2
    case cmdIdle =>
      repeat' split
      · exact state_command _ _ (by simp)
      all_goals simp
    case waitArg | waitArgCsr | recvMemAddr | recvMemData | recvMmioAddr =>
      repeat' split
      · exact state_argument _ _ (by simp)
      all_goals simp
    all_goals
      repeat' split
      all_goals simp
  rcases away with start | kept
  · cases txBusy <;> simp [DebugRegs.advance, start] at next ⊢
  · cases txBusy <;> simp [DebugRegs.advance, kept] at next ⊢

private theorem joint_posedge (small : clkPerBit < 2 ^ 16) (pos : 0 < clkPerBit)
    (joint : Joint clkPerBit v) (i : DebugIn) : Joint clkPerBit (v.posedge clkPerBit i) := by
  by_cases rst : i.rst = true
  · exact joint_reset v rst
  · have go : i.rst = false := Bool.eq_false_iff.mpr rst
    refine ⟨linked_posedge joint.linked i, ?_, ?_⟩
    · simp only [DbgUart.posedge, go, Bool.false_eq_true, if_false]
      intro next
      obtain ⟨free, ⟨start, strobe⟩ | ⟨kept, dropped⟩⟩ := turn_advance next
      · have off : v.fsm.txEn = false := by
          apply Bool.eq_false_iff.mpr
          intro on
          rw [joint.linked.strobe on] at start
          cases start
        have idle : v.tx.state = .idle := (idle_iff_free joint.linked).mpr free
        rw [strobe, off]
        simp [UartTx.posedge, idle]
      · have idle : v.tx.state = .idle := (idle_iff_free joint.linked).mpr free
        rw [dropped, (joint.turn kept).mpr idle]
        simp [UartTx.posedge, idle]
    · simp only [DbgUart.posedge, go]
      exact counters_posedge small pos joint.counters

end Invariant

section Decrease

variable {clkPerBit : ℕ} {v : DbgUart} {i : DebugIn}

private theorem timeout_fits (small : clkPerBit < 2 ^ 16) :
    clkPerBit * timeoutBitPeriods % 2 ^ 32 = clkPerBit * timeoutBitPeriods := by
  apply Nat.mod_eq_of_lt
  rw [timeoutBitPeriods]
  omega

private theorem fsm_posedge (go : i.rst = false) :
    (v.posedge clkPerBit i).fsm = v.fsm.advance clkPerBit v.tx.busy i := by
  simp [DbgUart.posedge, go]

private theorem tx_posedge (go : i.rst = false) : (v.posedge clkPerBit i).tx =
    v.tx.posedge uartParams clkPerBit false v.fsm.txData v.fsm.txEn := by
  simp [DbgUart.posedge, go]

private theorem remaining_of_awaits (awaits : v.fsm.awaits = true) :
    remaining clkPerBit v = clkPerBit * timeoutBitPeriods - v.fsm.rxTimeoutCnt.toNat + 1 := by
  cases state : v.fsm.state <;> simp [DebugRegs.awaits, state] at awaits <;> simp [remaining, state]

private theorem remaining_of_idle (idle : v.fsm.state = .cmdIdle) : remaining clkPerBit v = 0 := by
  rw [remaining, idle]

private theorem advance_awaiting {r : DebugRegs} {txBusy : Bool} (quiet : i.rxDone = false)
    (awaits : r.awaits = true) :
    r.advance clkPerBit txBusy i =
      { r with
        txEn := false
        rxTimeoutCnt := r.rxTimeoutCnt + 1
        state := if r.timedOut clkPerBit then .cmdIdle else r.state } := by
  cases state : r.state <;> simp [DebugRegs.awaits, state] at awaits <;>
    simp only [DebugRegs.advance, state, quiet, Bool.false_eq_true, if_false] <;>
    cases r.timedOut clkPerBit <;> simp

private theorem remaining_awaiting (small : clkPerBit < 2 ^ 16) (go : i.rst = false)
    (quiet : i.rxDone = false) (awaits : v.fsm.awaits = true) :
    remaining clkPerBit (v.posedge clkPerBit i) < remaining clkPerBit v := by
  have next := (@fsm_posedge clkPerBit v i go).trans (advance_awaiting quiet awaits)
  rw [remaining_of_awaits awaits]
  cases timeout : v.fsm.timedOut clkPerBit with
  | true =>
    rw [remaining_of_idle (by rw [next, timeout]; rfl)]
    omega
  | false =>
    have before : v.fsm.rxTimeoutCnt.toNat < clkPerBit * timeoutBitPeriods := by
      rw [DebugRegs.timedOut, timeout_fits small, decide_eq_false_iff_not] at timeout
      omega
    have count : (v.posedge clkPerBit i).fsm.rxTimeoutCnt.toNat = v.fsm.rxTimeoutCnt.toNat + 1 := by
      rw [next]
      rw [timeoutBitPeriods] at before
      change (v.fsm.rxTimeoutCnt + 1).toNat = _
      bv_omega
    have still : (v.posedge clkPerBit i).fsm.awaits = true := by
      rw [next, timeout]
      exact awaits
    rw [remaining_of_awaits still, count]
    omega

private theorem remaining_start (joint : Joint clkPerBit v) (go : i.rst = false)
    (start : v.fsm.state = .sendByteStart) :
    remaining clkPerBit (v.posedge clkPerBit i) < remaining clkPerBit v := by
  have free : v.tx.busy = false := joint.linked.free (by simp [start]) (by simp [start])
  have next := @fsm_posedge clkPerBit v i go
  simp only [DebugRegs.advance, start, free, Bool.not_false, if_true] at next
  simp only [remaining, next, start, replyLeft, byteClocks, if_true]
  omega

private theorem remaining_waitBusy (small : clkPerBit < 2 ^ 16) (pos : 0 < clkPerBit)
    (joint : Joint clkPerBit v) (go : i.rst = false)
    (waiting : v.fsm.state = .sendByteWaitBusy) :
    remaining clkPerBit (v.posedge clkPerBit i) < remaining clkPerBit v := by
  have next := @fsm_posedge clkPerBit v i go
  have line := @tx_posedge clkPerBit v i go
  cases strobe : v.fsm.txEn with
  | true =>
    have idle := (joint.turn waiting).mp strobe
    have free := (idle_iff_free joint.linked).mp idle
    simp only [DebugRegs.advance, waiting, free, Bool.false_eq_true, if_false] at next
    rw [strobe] at line
    simp only [remaining, next, line, waiting, strobe, replyLeft, txLeft_start idle, if_true,
      Bool.false_eq_true, if_false]
    omega
  | false =>
    have sending : v.tx.state ≠ .idle := by
      intro idle
      rw [(joint.turn waiting).mpr idle] at strobe
      cases strobe
    have taken : v.tx.busy = true := by
      rw [joint.linked.busy]
      simp [sending]
    simp only [DebugRegs.advance, waiting, taken, if_true] at next
    have closer := txLeft_posedge (b := v.fsm.txData) (e := v.fsm.txEn) small pos joint.counters
      sending
    rw [← line] at closer
    simp only [remaining, next, waiting, strobe, replyLeft, Bool.false_eq_true, if_false]
    omega

private theorem remaining_waitDone (small : clkPerBit < 2 ^ 16) (pos : 0 < clkPerBit)
    (joint : Joint clkPerBit v) (go : i.rst = false)
    (waiting : v.fsm.state = .sendByteWaitDone) :
    remaining clkPerBit (v.posedge clkPerBit i) < remaining clkPerBit v := by
  have next := @fsm_posedge clkPerBit v i go
  have line := @tx_posedge clkPerBit v i go
  cases busy : v.tx.busy with
  | true =>
    have sending : v.tx.state ≠ .idle := by
      intro idle
      rw [(idle_iff_free joint.linked).mp idle] at busy
      cases busy
    simp only [DebugRegs.advance, waiting, busy, Bool.not_true, Bool.false_eq_true, if_false]
      at next
    have closer := txLeft_posedge (b := v.fsm.txData) (e := v.fsm.txEn) small pos joint.counters
      sending
    rw [← line] at closer
    simp only [remaining, next, waiting, replyLeft]
    omega
  | false =>
    by_cases last : v.fsm.byteSel = 3
    · by_cases only : v.fsm.wordCount = 1
      · simp only [DebugRegs.advance, waiting, busy, last, only, Bool.not_false, if_true] at next
        rw [remaining_of_idle (by rw [next])]
        simp only [remaining, waiting]
        omega
      · simp only [DebugRegs.advance, waiting, busy, last, only, Bool.not_false, if_true, if_false]
          at next
        have words : (v.fsm.wordCount - 1).toNat = (v.fsm.wordCount - 1 - 1).toNat + 1 := by
          bv_omega
        simp only [remaining, next, waiting, replyLeft, words, Nat.succ_mul]
        omega
    · simp only [DebugRegs.advance, waiting, busy, last, Bool.not_false, if_true, if_false] at next
      have bytes : 3 - v.fsm.byteSel.toNat = 3 - (v.fsm.byteSel + 1).toNat + 1 := by
        bv_omega
      simp only [remaining, next, waiting, replyLeft, bytes, Nat.succ_mul]
      omega

private theorem remaining_posedge (small : clkPerBit < 2 ^ 16) (pos : 0 < clkPerBit)
    (joint : Joint clkPerBit v) (quiet : i.rxDone = false) (busy : v.fsm.state ≠ .cmdIdle) :
    remaining clkPerBit (v.posedge clkPerBit i) < remaining clkPerBit v := by
  cases rst : i.rst with
  | true =>
    have idle : (v.posedge clkPerBit i).fsm.state = .cmdIdle := by
      simp [DbgUart.posedge, rst, DebugRegs.reset]
    rw [remaining_of_idle idle]
    cases state : v.fsm.state <;> simp only [remaining, state, wordClocks, byteClocks]
    case cmdIdle => exact absurd state busy
    case sendByteWaitBusy => split_ifs <;> omega
    all_goals omega
  | false =>
    have next := @fsm_posedge clkPerBit v i rst
    cases state : v.fsm.state with
    | cmdIdle => exact absurd state busy
    | waitArg | waitArgCsr | recvMemAddr | recvMemData | recvMmioAddr =>
      exact remaining_awaiting small rst quiet (by rw [DebugRegs.awaits, state])
    | sendByteStart => exact remaining_start joint rst state
    | sendByteWaitBusy => exact remaining_waitBusy small pos joint rst state
    | sendByteWaitDone => exact remaining_waitDone small pos joint rst state
    | stepAssert | stepDeassert | memWritePulse | memReadWait | mmioReadWait =>
      simp only [DebugRegs.advance, state] at next
      simp only [remaining, next, state]
      omega
    | sendLoad | memReadLatch | mmioReadLatch =>
      have first : (0 : BitVec 2).toNat = 0 := rfl
      have single : ((1 : BitVec 6) - 1).toNat = 0 := rfl
      simp only [DebugRegs.advance, state] at next
      simp only [remaining, next, state, replyLeft, wordClocks, first, single, Nat.zero_mul]
      omega

end Decrease

section Runs

variable {clkPerBit : ℕ} {v : DbgUart} {input : ℕ → DebugIn}

private theorem joint_run (small : clkPerBit < 2 ^ 16) (pos : 0 < clkPerBit)
    (reset : (input 0).rst = true) :
    ∀ n, 0 < n → Joint clkPerBit (run clkPerBit v input n) := by
  intro n first
  induction n, first using Nat.le_induction with
  | base => exact joint_reset v reset
  | succ n _ ih => exact joint_posedge small pos ih (input n)

/-- From a reset on, whatever was received before, the measure falls on every clock in which no
byte is received and the FSM is not in `CMD_IDLE`; if none is received any more, the FSM is in
`CMD_IDLE` after as many clocks as the measure says, and a byte is never strobed into a transmitter
that is not idle. -/
theorem debugger_resynchronises (clkPerBit : ℕ) (pos : 1 ≤ clkPerBit)
    (small : clkPerBit < 2 ^ 16) (v : DbgUart) (input : ℕ → DebugIn)
    (reset : (input 0).rst = true) :
    (∀ n, 0 < n → (input n).rxDone = false → (run clkPerBit v input n).fsm.state ≠ .cmdIdle →
      remaining clkPerBit (run clkPerBit v input (n + 1)) <
        remaining clkPerBit (run clkPerBit v input n)) ∧
    (∀ n, 0 < n → (∀ k, n ≤ k → (input k).rxDone = false) →
      ∃ t, n ≤ t ∧ t ≤ n + remaining clkPerBit (run clkPerBit v input n) ∧
        (run clkPerBit v input t).fsm.state = .cmdIdle) ∧
    ∀ n, 0 < n → (run clkPerBit v input n).fsm.txEn = true →
      (run clkPerBit v input n).tx.state = .idle := by
  have joint := joint_run (v := v) small pos reset
  have falls : ∀ n, 0 < n → (input n).rxDone = false →
      (run clkPerBit v input n).fsm.state ≠ .cmdIdle →
      remaining clkPerBit (run clkPerBit v input (n + 1)) <
        remaining clkPerBit (run clkPerBit v input n) :=
    fun n first quiet busy => remaining_posedge small pos (joint n first) quiet busy
  refine ⟨falls, ?_, fun n first strobe => (joint n first).idle_of_txEn strobe⟩
  intro n first quiet
  obtain ⟨d, le, idle⟩ := @reached_within
    (fun d => remaining clkPerBit (run clkPerBit v input (n + d)))
    (fun d => (run clkPerBit v input (n + d)).fsm.state = .cmdIdle) fun d _ busy =>
      falls (n + d) (by omega) (quiet (n + d) (by omega)) busy
  simp only [Nat.add_zero] at le
  exact ⟨n + d, by omega, by omega, idle⟩

def truncated (n : ℕ) : DebugIn where
  rst := n == 0
  rxDone := n == 1
  rxData := 0x04
  dbgRegData := 0
  pcDbg := 0
  dbgCsrData := 0
  dbgMemRdata := 0
  dbgMmioRdata := 0

/-- The debugger gives it up. -/
theorem debugger_resynchronises_truncated :
    ∃ t, 2 ≤ t ∧
      (run 1 { fsm := .reset 0, tx := idleTx } truncated t).fsm.state = .cmdIdle := by
  obtain ⟨t, after, -, idle⟩ := (debugger_resynchronises 1 le_rfl (by decide)
    { fsm := .reset 0, tx := idleTx } truncated rfl).2.1 2 (by decide) fun k later => by
      simp [truncated]
      omega
  exact ⟨t, after, idle⟩

end Runs

end RiscvSoc.Peripherals.DebugResync
