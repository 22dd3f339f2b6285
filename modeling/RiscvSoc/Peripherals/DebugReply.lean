/- GID: RiscvSoc/Peripherals/DebugReply
   generality: G
   utility: support
   digest: The debug UART sending: one byte, one word, and the words of READ_ALL. -/

import RiscvSoc.Peripherals.DebugUart
import RiscvSoc.Peripherals.TxFrame
import RiscvSoc.Clocked.Trajectory
import Mathlib.Tactic.Ring

set_option autoImplicit false
set_option relaxedAutoImplicit false

namespace RiscvSoc.Peripherals.DebugReply

open RiscvSoc.Clocked.Trajectory
open RiscvSoc.Cpu.Decoder
open RiscvSoc.Memory.ByteLanes
open RiscvSoc.Peripherals.Uart
open RiscvSoc.Peripherals.TxFrame
open RiscvSoc.Peripherals.DebugUart

def completed (u : DbgUart) : List Byte := if u.tx.state = .done then [u.tx.packetByte] else []

section Fsm

/-- What the FSM keeps while it sends one byte. -/
structure Outgoing where
  curWord : Word
  wordSel : BitVec 6
  wordCount : BitVec 6
  readingCsr : Bool
  byteSel : BitVec 2

structure Sends (o : Outgoing) (state : State) (r : DebugRegs) : Prop where
  state : r.state = state
  halt : r.halt = true
  curWord : r.curWord = o.curWord
  wordSel : r.wordSel = o.wordSel
  wordCount : r.wordCount = o.wordCount
  readingCsr : r.readingCsr = o.readingCsr
  byteSel : r.byteSel = o.byteSel

variable {o : Outgoing} {r : DebugRegs} (clkPerBit : ℕ) (i : DebugIn)

private theorem sends_start (sends : Sends o .sendByteStart r) :
    Sends o .sendByteWaitBusy (r.advance clkPerBit false i) ∧
      (r.advance clkPerBit false i).txEn = true ∧
      (r.advance clkPerBit false i).txData = lane o.curWord o.byteSel.toNat := by
  obtain ⟨state, halt, curWord, wordSel, wordCount, readingCsr, byteSel⟩ := sends
  refine ⟨⟨?_, ?_, ?_, ?_, ?_, ?_, ?_⟩, ?_, ?_⟩ <;> simp [DebugRegs.advance, *]

private theorem sends_unheard (sends : Sends o .sendByteWaitBusy r) :
    Sends o .sendByteWaitBusy (r.advance clkPerBit false i) ∧
      (r.advance clkPerBit false i).txEn = false := by
  obtain ⟨state, halt, curWord, wordSel, wordCount, readingCsr, byteSel⟩ := sends
  refine ⟨⟨?_, ?_, ?_, ?_, ?_, ?_, ?_⟩, ?_⟩ <;> simp [DebugRegs.advance, *]

private theorem sends_heard (sends : Sends o .sendByteWaitBusy r) :
    Sends o .sendByteWaitDone (r.advance clkPerBit true i) ∧
      (r.advance clkPerBit true i).txEn = false := by
  obtain ⟨state, halt, curWord, wordSel, wordCount, readingCsr, byteSel⟩ := sends
  refine ⟨⟨?_, ?_, ?_, ?_, ?_, ?_, ?_⟩, ?_⟩ <;> simp [DebugRegs.advance, *]

private theorem sends_busy (sends : Sends o .sendByteWaitDone r) :
    Sends o .sendByteWaitDone (r.advance clkPerBit true i) ∧
      (r.advance clkPerBit true i).txEn = false := by
  obtain ⟨state, halt, curWord, wordSel, wordCount, readingCsr, byteSel⟩ := sends
  refine ⟨⟨?_, ?_, ?_, ?_, ?_, ?_, ?_⟩, ?_⟩ <;> simp [DebugRegs.advance, *]

private theorem sends_next (sends : Sends o .sendByteWaitDone r) (more : o.byteSel ≠ 3#2) :
    Sends { o with byteSel := o.byteSel + 1 } .sendByteStart (r.advance clkPerBit false i) ∧
      (r.advance clkPerBit false i).txEn = false := by
  obtain ⟨state, halt, curWord, wordSel, wordCount, readingCsr, byteSel⟩ := sends
  refine ⟨⟨?_, ?_, ?_, ?_, ?_, ?_, ?_⟩, ?_⟩ <;> simp [DebugRegs.advance, *]

private theorem sends_reload (sends : Sends o .sendByteWaitDone r) (last : o.byteSel = 3#2)
    (more : o.wordCount ≠ 1#6) :
    Sends { o with wordSel := o.wordSel + 1, wordCount := o.wordCount - 1 } .sendLoad
        (r.advance clkPerBit false i) ∧
      (r.advance clkPerBit false i).txEn = false := by
  obtain ⟨state, halt, curWord, wordSel, wordCount, readingCsr, byteSel⟩ := sends
  refine ⟨⟨?_, ?_, ?_, ?_, ?_, ?_, ?_⟩, ?_⟩ <;> simp [DebugRegs.advance, *]

private theorem sends_end (sends : Sends o .sendByteWaitDone r) (last : o.byteSel = 3#2)
    (none : o.wordCount = 1#6) :
    (r.advance clkPerBit false i).state = .cmdIdle ∧ (r.advance clkPerBit false i).halt = true ∧
      (r.advance clkPerBit false i).txEn = false := by
  obtain ⟨state, halt, curWord, wordSel, wordCount, readingCsr, byteSel⟩ := sends
  refine ⟨?_, ?_, ?_⟩ <;> simp [DebugRegs.advance, *]

/-- The word that `SEND_LOAD` latches. -/
def loaded (r : DebugRegs) (i : DebugIn) : Word :=
  if r.readingCsr then i.dbgCsrData else if r.wordSel < 32 then i.dbgRegData else i.pcDbg

private theorem sends_load (txBusy : Bool) (sends : Sends o .sendLoad r) :
    Sends { o with curWord := loaded r i, byteSel := 0 } .sendByteStart
        (r.advance clkPerBit txBusy i) ∧
      (r.advance clkPerBit txBusy i).txEn = false := by
  obtain ⟨state, halt, curWord, wordSel, wordCount, readingCsr, byteSel⟩ := sends
  refine ⟨⟨?_, ?_, ?_, ?_, ?_, ?_, ?_⟩, ?_⟩ <;> simp [DebugRegs.advance, loaded, *]

end Fsm

section Link

/-- FSM and transmitter agree on whose turn it is. -/
structure Linked (v : DbgUart) : Prop where
  busy : v.tx.busy = (v.tx.state != .idle)
  strobe : v.fsm.txEn = true → v.fsm.state = .sendByteWaitBusy
  free : v.fsm.state ≠ .sendByteWaitBusy → v.fsm.state ≠ .sendByteWaitDone → v.tx.busy = false

/-- The transmitter is strobed on the way into one state only. -/
theorem txEn_advance {clkPerBit : ℕ} {r : DebugRegs} {txBusy : Bool} {i : DebugIn}
    (strobe : (r.advance clkPerBit txBusy i).txEn = true) :
    (r.advance clkPerBit txBusy i).state = .sendByteWaitBusy := by
  revert strobe
  cases state : r.state <;> simp only [DebugRegs.advance, state]
  all_goals
    repeat' split
    all_goals simp

private theorem free_advance {clkPerBit : ℕ} {r : DebugRegs} {txBusy : Bool} {i : DebugIn}
    (notBusy : (r.advance clkPerBit txBusy i).state ≠ .sendByteWaitBusy)
    (notDone : (r.advance clkPerBit txBusy i).state ≠ .sendByteWaitDone) :
    r.state ≠ .sendByteWaitBusy ∧ (r.state = .sendByteWaitDone → txBusy = false) := by
  constructor
  · intro state
    cases txBusy <;> simp [DebugRegs.advance, state] at notBusy notDone
  · intro state
    cases txBusy with
    | false => rfl
    | true => simp [DebugRegs.advance, state] at notDone

theorem linked_posedge {clkPerBit : ℕ} {v : DbgUart} (inv : Linked v) (i : DebugIn) :
    Linked (v.posedge clkPerBit i) := by
  obtain ⟨busy, strobe, free⟩ := inv
  by_cases rst : i.rst = true
  · constructor <;> simp [DbgUart.posedge, UartTx.posedge, DebugRegs.reset, rst]
  · have noRst : i.rst = false := Bool.eq_false_iff.mpr rst
    simp only [DbgUart.posedge, noRst]
    refine ⟨busy_posedge busy, txEn_advance, ?_⟩
    intro notBusy notDone
    obtain ⟨before, seen⟩ := free_advance notBusy notDone
    have off : v.fsm.txEn = false := by
      rw [Bool.eq_false_iff]
      intro on
      exact before (strobe on)
    have idle : v.tx.busy = false := by
      by_cases done : v.fsm.state = .sendByteWaitDone
      · exact seen done
      · exact free before done
    have ready : Ready v.tx := ⟨by simpa [idle] using busy, idle⟩
    rw [off]
    exact (ready_idle _ _ _ ready).busy

end Link

section Runs

/-- The debug UART at clock `n`. -/
abbrev run (clkPerBit : ℕ) (u : DbgUart) (i : ℕ → DebugIn) : ℕ → DbgUart :=
  trajectory (DbgUart.posedge clkPerBit) u i

/-- The bytes sent before clock `n`. -/
abbrev sent (clkPerBit : ℕ) (u : DbgUart) (i : ℕ → DebugIn) : ℕ → List Byte :=
  emitted (DbgUart.posedge clkPerBit) (fun v _ => completed v) u i

/-- The FSM has a byte to send and the transmitter is free. -/
structure Offers (o : Outgoing) (v : DbgUart) : Prop where
  sends : Sends o .sendByteStart v.fsm
  txEn : v.fsm.txEn = false
  ready : Ready v.tx

/-- The byte is out, and the FSM is about to notice. -/
structure Delivered (o : Outgoing) (v : DbgUart) : Prop where
  sends : Sends o .sendByteWaitDone v.fsm
  txEn : v.fsm.txEn = false
  ready : Ready v.tx

/-- Clock `k` of the frame, seen from both sides. -/
structure Sending (clkPerBit : ℕ) (o : Outgoing) (k : ℕ) (v : DbgUart) : Prop where
  sends : Sends o (if k = 0 then .sendByteWaitBusy else .sendByteWaitDone) v.fsm
  txEn : v.fsm.txEn = false
  air : OnAir uartParams clkPerBit (lane o.curWord o.byteSel.toNat) k v.tx

variable {clkPerBit : ℕ} {u : DbgUart} {i : ℕ → DebugIn} {o : Outgoing} {m : ℕ}

theorem run_succ (clkPerBit : ℕ) (u : DbgUart) (noRst : ∀ n, (i n).rst = false) (n : ℕ) :
    run clkPerBit u i (n + 1) =
      { fsm := (run clkPerBit u i n).fsm.advance clkPerBit (run clkPerBit u i n).tx.busy (i n)
        tx := (run clkPerBit u i n).tx.posedge uartParams clkPerBit false
          (run clkPerBit u i n).fsm.txData (run clkPerBit u i n).fsm.txEn } := by
  simp only [trajectory_succ, DbgUart.posedge, noRst n, Bool.false_eq_true, if_false]

theorem sent_succ (clkPerBit : ℕ) (u : DbgUart) (i : ℕ → DebugIn) (n : ℕ) :
    sent clkPerBit u i (n + 1) = sent clkPerBit u i n ++ completed (run clkPerBit u i n) := rfl

private theorem completed_of_state {v : DbgUart} (state : v.tx.state ≠ .done) :
    completed v = [] :=
  if_neg state

private theorem sending_start (noRst : ∀ n, (i n).rst = false)
    (offers : Offers o (run clkPerBit u i m)) :
    (run clkPerBit u i (m + 1)).tx.state ≠ .done ∧
      Sending clkPerBit o 0 (run clkPerBit u i (m + 2)) := by
  obtain ⟨sends, txEn, ready⟩ := offers
  have next := run_succ clkPerBit u noRst m
  rw [ready.busy, txEn] at next
  have handed := sends_start clkPerBit (i m) sends
  have waiting := ready_idle uartParams clkPerBit (run clkPerBit u i m).fsm.txData ready
  have second := run_succ clkPerBit u noRst (m + 1)
  rw [next, waiting.busy, handed.2.1, handed.2.2] at second
  rw [second, next]
  have unheard := sends_unheard clkPerBit (i (m + 1)) handed.1
  exact ⟨by simp [waiting.state], unheard.1, unheard.2, onAir_start waiting⟩

private theorem sending_frame (pos : 0 < clkPerBit) (fits : clkPerBit < 2 ^ 16)
    (noRst : ∀ n, (i n).rst = false) (offers : Offers o (run clkPerBit u i m)) {k : ℕ}
    (inside : k < frameClocks uartParams clkPerBit) :
    Sending clkPerBit o k (run clkPerBit u i (m + 2 + k)) := by
  induction k with
  | zero => exact (sending_start noRst offers).2
  | succ k ih =>
    obtain ⟨sends, txEn, air⟩ := ih (by omega)
    rw [← Nat.add_assoc, run_succ clkPerBit u noRst, air.busy]
    have fsm : Sends o .sendByteWaitDone
          ((run clkPerBit u i (m + 2 + k)).fsm.advance clkPerBit true (i (m + 2 + k))) ∧
        ((run clkPerBit u i (m + 2 + k)).fsm.advance clkPerBit true (i (m + 2 + k))).txEn =
          false := by
      split_ifs at sends
      · exact sends_heard clkPerBit _ sends
      · exact sends_busy clkPerBit _ sends
    exact ⟨fsm.1, fsm.2, onAir_next pos fits air inside _ _⟩

private theorem frameClocks_eq (clkPerBit : ℕ) :
    frameClocks uartParams clkPerBit = 11 * clkPerBit :=
  rfl

/-- One byte: its frame ends in clock `11 * clkPerBit + 2` after the offer and is seen to have
ended one clock later. -/
private theorem send_byte (pos : 0 < clkPerBit) (fits : clkPerBit < 2 ^ 16)
    (noRst : ∀ n, (i n).rst = false) (offers : Offers o (run clkPerBit u i m)) :
    Delivered o (run clkPerBit u i (m + (11 * clkPerBit + 3))) ∧
      sent clkPerBit u i (m + (11 * clkPerBit + 2)) = sent clkPerBit u i m ∧
      sent clkPerBit u i (m + (11 * clkPerBit + 3)) =
        sent clkPerBit u i m ++ [lane o.curWord o.byteSel.toNat] := by
  have frame := frameClocks_eq clkPerBit
  obtain ⟨last, eq⟩ : ∃ last, last + 1 = 11 * clkPerBit := ⟨11 * clkPerBit - 1, by omega⟩
  obtain ⟨sends, txEn, air⟩ := sending_frame pos fits noRst offers (k := last) (by omega)
  rw [if_neg (by omega)] at sends
  have closing := run_succ clkPerBit u noRst (m + 2 + last)
  have ended := run_succ clkPerBit u noRst (m + 2 + last + 1)
  rw [air.busy] at closing
  have waits := sends_busy clkPerBit (i (m + 2 + last)) sends
  have closes := onAir_last pos fits air (by omega) (run clkPerBit u i (m + 2 + last)).fsm.txData
    (run clkPerBit u i (m + 2 + last)).fsm.txEn
  have quiet : sent clkPerBit u i (m + 2 + last + 1) = sent clkPerBit u i m := by
    rw [show m + 2 + last + 1 = m + (last + 3) by omega]
    apply emitted_quiet
    intro j hj
    apply completed_of_state
    rcases j with _ | _ | j
    · simp [offers.ready.state]
    · exact (sending_start noRst offers).1
    · have air := (sending_frame pos fits noRst offers (k := j) (by omega)).air.state
      rw [show m + (j + 1 + 1) = m + 2 + j by omega, air]
      decide
  rw [← eq, show m + (last + 1 + 2) = m + 2 + last + 1 by omega,
    show m + (last + 1 + 3) = m + 2 + last + 1 + 1 by omega]
  refine ⟨?_, quiet, ?_⟩
  · rw [ended, closing, closes.busy]
    have seen := sends_busy clkPerBit (i (m + 2 + last + 1)) waits.1
    exact ⟨seen.1, seen.2, ready_closed _ closes _ _⟩
  · rw [sent_succ, quiet, closing]
    simp only [completed, closes.state, if_true, packetByte_frame closes.packet]

private theorem offers_next (noRst : ∀ n, (i n).rst = false)
    (out : Delivered o (run clkPerBit u i m))
    (more : o.byteSel ≠ 3#2) :
    Offers { o with byteSel := o.byteSel + 1 } (run clkPerBit u i (m + 1)) ∧
      sent clkPerBit u i (m + 1) = sent clkPerBit u i m := by
  constructor
  · have next := sends_next clkPerBit (i m) out.sends more
    rw [run_succ clkPerBit u noRst, out.ready.busy, out.txEn]
    exact ⟨next.1, next.2, ready_idle _ _ _ out.ready⟩
  · rw [sent_succ, completed_of_state (by simp [out.ready.state]), List.append_nil]

private theorem send_bytes (pos : 0 < clkPerBit) (fits : clkPerBit < 2 ^ 16)
    (noRst : ∀ n, (i n).rst = false) (offers : Offers o (run clkPerBit u i m))
    (first : o.byteSel = 0) (b : ℕ) (hb : b ≤ 3) :
    Delivered { o with byteSel := BitVec.ofNat 2 b }
        (run clkPerBit u i (m + b * (11 * clkPerBit + 4) + (11 * clkPerBit + 3))) ∧
      sent clkPerBit u i (m + b * (11 * clkPerBit + 4) + (11 * clkPerBit + 2)) =
        sent clkPerBit u i m ++ (List.range b).map (lane o.curWord) ∧
      sent clkPerBit u i (m + b * (11 * clkPerBit + 4) + (11 * clkPerBit + 3)) =
        sent clkPerBit u i m ++ (List.range (b + 1)).map (lane o.curWord) := by
  induction b with
  | zero =>
    have byte := send_byte pos fits noRst offers
    obtain ⟨curWord, wordSel, wordCount, readingCsr, byteSel⟩ := o
    obtain rfl : byteSel = 0 := first
    simpa using byte
  | succ b ih =>
    obtain ⟨out, -, log⟩ := ih (by omega)
    have small : (BitVec.ofNat 2 b).toNat = b := by simp; omega
    have more : BitVec.ofNat 2 b ≠ 3#2 := by
      intro full
      have := congrArg BitVec.toNat full
      simp only [small, BitVec.toNat_ofNat] at this
      omega
    have next := offers_next noRst out more
    have byte := send_byte pos fits noRst next.1
    have succ : BitVec.ofNat 2 b + 1 = BitVec.ofNat 2 (b + 1) := by simp [BitVec.ofNat_add]
    have index : (BitVec.ofNat 2 (b + 1)).toNat = b + 1 := by simp; omega
    rw [next.2, log] at byte
    simp only [succ, index] at byte
    rw [show m + (b + 1) * (11 * clkPerBit + 4) =
      m + b * (11 * clkPerBit + 4) + (11 * clkPerBit + 3) + 1 by ring]
    refine ⟨byte.1, byte.2.1, byte.2.2.trans ?_⟩
    rw [List.append_assoc, List.range_succ (n := b + 1), List.map_append]
    rfl

/-- Clocks from the offer of a word's first byte to the state after the word. -/
def wordClocks (clkPerBit : ℕ) : ℕ := 4 * (11 * clkPerBit + 4)

/-- The debug UART is idle and the core halted. -/
structure Idle (v : DbgUart) : Prop where
  state : v.fsm.state = .cmdIdle
  halt : v.fsm.halt = true
  txEn : v.fsm.txEn = false
  ready : Ready v.tx

theorem idle_of_linked {v : DbgUart} (inv : Linked v) (state : v.fsm.state = .cmdIdle)
    (halt : v.fsm.halt = true) : Idle v := by
  have busy : v.tx.busy = false := inv.free (by simp [state]) (by simp [state])
  refine ⟨state, halt, ?_, ?_, busy⟩
  · rw [Bool.eq_false_iff]
    intro strobe
    have := inv.strobe strobe
    simp [state] at this
  · simpa [busy] using inv.busy

/-- The FSM is about to latch a word. -/
structure Loads (o : Outgoing) (v : DbgUart) : Prop where
  sends : Sends o .sendLoad v.fsm
  txEn : v.fsm.txEn = false
  ready : Ready v.tx

/-- One word. Two clocks before its end the last byte is not yet counted as sent. -/
theorem send_word (pos : 0 < clkPerBit) (fits : clkPerBit < 2 ^ 16)
    (noRst : ∀ n, (i n).rst = false) (offers : Offers o (run clkPerBit u i m))
    (first : o.byteSel = 0) :
    (o.wordCount = 1#6 → Idle (run clkPerBit u i (m + wordClocks clkPerBit))) ∧
      (o.wordCount ≠ 1#6 →
        Loads { o with byteSel := 3, wordSel := o.wordSel + 1, wordCount := o.wordCount - 1 }
          (run clkPerBit u i (m + wordClocks clkPerBit))) ∧
      sent clkPerBit u i (m + wordClocks clkPerBit) =
        sent clkPerBit u i m ++ wordBytes o.curWord ∧
      (sent clkPerBit u i (m + wordClocks clkPerBit - 2)).length =
        (sent clkPerBit u i m).length + 3 := by
  obtain ⟨out, early, log⟩ := send_bytes pos fits noRst offers first 3 le_rfl
  have clocks : m + wordClocks clkPerBit =
      m + 3 * (11 * clkPerBit + 4) + (11 * clkPerBit + 3) + 1 := by unfold wordClocks; ring
  have before : m + wordClocks clkPerBit - 2 =
      m + 3 * (11 * clkPerBit + 4) + (11 * clkPerBit + 2) := by omega
  rw [before, clocks]
  refine ⟨?_, ?_, ?_, ?_⟩
  · intro single
    obtain ⟨state, halt, txEn⟩ := sends_end clkPerBit
      (i (m + 3 * (11 * clkPerBit + 4) + (11 * clkPerBit + 3))) out.sends rfl single
    rw [run_succ clkPerBit u noRst, out.ready.busy, out.txEn]
    exact ⟨state, halt, txEn, ready_idle _ _ _ out.ready⟩
  · intro more
    obtain ⟨sends, txEn⟩ := sends_reload clkPerBit
      (i (m + 3 * (11 * clkPerBit + 4) + (11 * clkPerBit + 3))) out.sends rfl more
    rw [run_succ clkPerBit u noRst, out.ready.busy, out.txEn]
    exact ⟨sends, txEn, ready_idle _ _ _ out.ready⟩
  · rw [sent_succ, completed_of_state (by simp [out.ready.state]), List.append_nil, log]
    rfl
  · rw [early]
    simp

private theorem offers_load (noRst : ∀ n, (i n).rst = false)
    (loads : Loads o (run clkPerBit u i m)) :
    Offers { o with curWord := loaded (run clkPerBit u i m).fsm (i m), byteSel := 0 }
        (run clkPerBit u i (m + 1)) ∧
      sent clkPerBit u i (m + 1) = sent clkPerBit u i m := by
  constructor
  · have next := sends_load clkPerBit (i m) (run clkPerBit u i m).tx.busy loads.sends
    rw [run_succ clkPerBit u noRst, loads.txEn]
    exact ⟨next.1, next.2, ready_idle _ _ _ loads.ready⟩
  · rw [sent_succ, completed_of_state (by simp [loads.ready.state]), List.append_nil]

/-- Clocks from one `SEND_LOAD` to the state after its word. -/
def loadClocks (clkPerBit : ℕ) : ℕ := wordClocks clkPerBit + 1

/-- The word latched in clock `n`, when it is a `SEND_LOAD`. -/
def latched (clkPerBit : ℕ) (u : DbgUart) (i : ℕ → DebugIn) (n : ℕ) : Word :=
  loaded (run clkPerBit u i n).fsm (i n)

/-- Word `k` of a reply that started in clock `m` is about to be latched. -/
theorem loads_again (pos : 0 < clkPerBit) (fits : clkPerBit < 2 ^ 16)
    (noRst : ∀ n, (i n).rst = false) (count : ℕ) (loads : Loads o (run clkPerBit u i m))
    (wordCount : o.wordCount = BitVec.ofNat 6 (count + 1)) (bound : count + 1 < 64) (k : ℕ)
    (inside : k ≤ count) :
    ∃ p, Loads p (run clkPerBit u i (m + k * loadClocks clkPerBit)) ∧
      p.readingCsr = o.readingCsr ∧ p.wordSel = o.wordSel + BitVec.ofNat 6 k ∧
      p.wordCount = BitVec.ofNat 6 (count - k + 1) ∧
      sent clkPerBit u i (m + k * loadClocks clkPerBit) = sent clkPerBit u i m ++
        (List.range k).flatMap fun j =>
          wordBytes (latched clkPerBit u i (m + j * loadClocks clkPerBit)) := by
  induction k with
  | zero => exact ⟨o, by simpa using loads, rfl, (BitVec.add_zero _).symm, wordCount, by simp⟩
  | succ k ih =>
    obtain ⟨p, here, csr, sel, left, log⟩ := ih (by omega)
    obtain ⟨offers, same⟩ := offers_load noRst here
    obtain ⟨-, next, out, -⟩ := send_word pos fits noRst offers rfl
    have more : p.wordCount ≠ 1#6 := by
      intro single
      have := congrArg BitVec.toNat (left.symm.trans single)
      simp only [BitVec.toNat_ofNat] at this
      omega
    have fewer : p.wordCount - 1 = BitVec.ofNat 6 (count - (k + 1) + 1) := by
      rw [left, show count - k + 1 = count - (k + 1) + 1 + 1 by omega, BitVec.ofNat_add _ 1]
      exact BitVec.add_sub_cancel _ _
    have selNext : p.wordSel + 1 = o.wordSel + BitVec.ofNat 6 (k + 1) := by
      rw [sel, BitVec.ofNat_add, BitVec.add_assoc]
      rfl
    rw [show m + (k + 1) * loadClocks clkPerBit =
      m + k * loadClocks clkPerBit + 1 + wordClocks clkPerBit by unfold loadClocks; ring]
    refine ⟨_, next more, csr, selNext, fewer, ?_⟩
    rw [out, same, log, List.range_succ, List.flatMap_append, List.flatMap_singleton,
      List.append_assoc]
    rfl

/-- A reply of `count + 1` words latches them one after the other and ends in `CMD_IDLE`. -/
theorem send_words (pos : 0 < clkPerBit) (fits : clkPerBit < 2 ^ 16)
    (noRst : ∀ n, (i n).rst = false) (count : ℕ) (loads : Loads o (run clkPerBit u i m))
    (wordCount : o.wordCount = BitVec.ofNat 6 (count + 1)) (bound : count + 1 < 64) :
    Idle (run clkPerBit u i (m + (count + 1) * loadClocks clkPerBit)) ∧
      sent clkPerBit u i (m + (count + 1) * loadClocks clkPerBit) = sent clkPerBit u i m ++
        ((List.range (count + 1)).flatMap fun j =>
          wordBytes (latched clkPerBit u i (m + j * loadClocks clkPerBit))) ∧
      (sent clkPerBit u i (m + (count + 1) * loadClocks clkPerBit - 2)).length <
        (sent clkPerBit u i m).length + 4 * (count + 1) := by
  obtain ⟨p, here, -, -, left, log⟩ :=
    loads_again pos fits noRst count loads wordCount bound count le_rfl
  obtain ⟨offers, same⟩ := offers_load noRst here
  obtain ⟨single, -, out, early⟩ := send_word pos fits noRst offers rfl
  rw [show m + (count + 1) * loadClocks clkPerBit =
    m + count * loadClocks clkPerBit + 1 + wordClocks clkPerBit by unfold loadClocks; ring]
  refine ⟨single (by simpa using left), ?_, ?_⟩
  · rw [out, same, log, List.range_succ, List.flatMap_append, List.flatMap_singleton,
      List.append_assoc]
    rfl
  · rw [early, same, log]
    simp [List.length_flatMap]
    omega

end Runs

end RiscvSoc.Peripherals.DebugReply
