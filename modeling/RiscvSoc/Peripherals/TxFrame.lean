/- GID: RiscvSoc/Peripherals/TxFrame
   generality: G
   utility: support
   digest: One frame of the transmitter, clock by clock. -/

import RiscvSoc.Peripherals.Uart
import RiscvSoc.Clocked.Trajectory
import Mathlib.Data.Nat.Notation

set_option autoImplicit false
set_option relaxedAutoImplicit false

namespace RiscvSoc.Peripherals.TxFrame

open RiscvSoc.Clocked.Trajectory
open RiscvSoc.Memory.ByteLanes
open RiscvSoc.Peripherals.Uart

/-- Clock `k` of the frame that carries `b`. -/
structure OnAir (p : UartParams) (clkPerBit : ℕ) (b : Byte) (k : ℕ) (s : UartTx) : Prop where
  state : s.state = .transmit
  busy : s.busy = true
  packet : s.packet = UartTx.frame p b
  index : s.index = k / clkPerBit
  clkCount : s.clkCount = k % clkPerBit

/-- The clock after the frame, in which the transmitter still counts as busy. -/
structure Closing (p : UartParams) (b : Byte) (s : UartTx) : Prop where
  state : s.state = .done
  busy : s.busy = true
  packet : s.packet = UartTx.frame p b

/-- The transmitter waits for a byte. -/
structure Ready (s : UartTx) : Prop where
  state : s.state = .idle
  busy : s.busy = false

/-- Clocks of one frame. -/
def frameClocks (p : UartParams) (clkPerBit : ℕ) : ℕ := p.packetSize * clkPerBit

variable {p : UartParams} {clkPerBit : ℕ} {b : Byte} {s : UartTx} {k : ℕ}

theorem ready_idle (p : UartParams) (clkPerBit : ℕ) (c : Byte) (ready : Ready s) :
    Ready (s.posedge p clkPerBit false c false) := by
  constructor <;> simp [UartTx.posedge, ready.state, ready.busy]

theorem onAir_start (ready : Ready s) :
    OnAir p clkPerBit b 0 (s.posedge p clkPerBit false b true) := by
  constructor <;> simp [UartTx.posedge, ready.state]

/-- Within a bit the clock counter moves, between two bits the index does. -/
theorem onAir_next (pos : 0 < clkPerBit) (fits : clkPerBit < 2 ^ p.clkBits)
    (air : OnAir p clkPerBit b k s) (more : k + 1 < frameClocks p clkPerBit) (c : Byte)
    (en : Bool) :
    OnAir p clkPerBit b (k + 1) (s.posedge p clkPerBit false c en) := by
  have split := Nat.div_add_mod k clkPerBit
  have small := Nat.mod_lt k pos
  have size := p.packetSize_le
  unfold frameClocks at more
  by_cases inside : k % clkPerBit + 1 < clkPerBit
  · have step : k + 1 = clkPerBit * (k / clkPerBit) + (k % clkPerBit + 1) := by omega
    have index : (k + 1) / clkPerBit = k / clkPerBit := by
      rw [step, Nat.mul_add_div pos, Nat.div_eq_of_lt inside, Nat.add_zero]
    have count : (k + 1) % clkPerBit = k % clkPerBit + 1 := by
      rw [step, Nat.mul_add_mod, Nat.mod_eq_of_lt inside]
    have before : s.clkCount < p.bitEnd clkPerBit := by
      rw [air.clkCount, p.bitEnd_eq pos fits]; omega
    constructor <;> simp only [UartTx.posedge, air.state, before, if_true, Bool.false_eq_true,
      if_false]
    · exact air.busy
    · exact air.packet
    · exact air.index.trans index.symm
    · rw [count, air.clkCount, Nat.mod_eq_of_lt (by omega)]
  · have step : k + 1 = clkPerBit * (k / clkPerBit + 1) := by rw [Nat.mul_add]; omega
    have index : (k + 1) / clkPerBit = k / clkPerBit + 1 := by
      rw [step, Nat.mul_div_cancel_left _ pos]
    have count : (k + 1) % clkPerBit = 0 := by rw [step, Nat.mul_mod_right]
    have atEnd : ¬s.clkCount < p.bitEnd clkPerBit := by
      rw [air.clkCount, p.bitEnd_eq pos fits]; omega
    have bits : k / clkPerBit + 1 < p.packetSize := by
      rw [step, Nat.mul_comm] at more
      exact Nat.lt_of_mul_lt_mul_right more
    have notLast : s.index ≠ p.packetSize - 1 := by rw [air.index]; omega
    constructor <;> simp only [UartTx.posedge, air.state, atEnd, notLast, if_false,
      Bool.false_eq_true]
    · exact air.busy
    · exact air.packet
    · rw [index, air.index, Nat.mod_eq_of_lt (by omega)]
    · exact count.symm

theorem onAir_last (pos : 0 < clkPerBit) (fits : clkPerBit < 2 ^ p.clkBits)
    (air : OnAir p clkPerBit b k s) (last : k + 1 = frameClocks p clkPerBit) (c : Byte)
    (en : Bool) :
    Closing p b (s.posedge p clkPerBit false c en) := by
  have split := Nat.div_add_mod k clkPerBit
  have small := Nat.mod_lt k pos
  unfold frameClocks at last
  have whole : (k + 1) % clkPerBit = 0 := by rw [last, Nat.mul_mod_left]
  have full : k % clkPerBit + 1 = clkPerBit := by
    by_contra short
    have step : k + 1 = clkPerBit * (k / clkPerBit) + (k % clkPerBit + 1) := by omega
    rw [step, Nat.mul_add_mod, Nat.mod_eq_of_lt (by omega)] at whole
    omega
  have bits : k / clkPerBit + 1 = p.packetSize := by
    have step : clkPerBit * (k / clkPerBit + 1) = clkPerBit * p.packetSize := by
      rw [Nat.mul_add, Nat.mul_comm clkPerBit p.packetSize]; omega
    exact Nat.eq_of_mul_eq_mul_left pos step
  have atEnd : ¬s.clkCount < p.bitEnd clkPerBit := by
    rw [air.clkCount, p.bitEnd_eq pos fits]; omega
  have isLast : s.index = p.packetSize - 1 := air.index.trans (Nat.eq_sub_of_add_eq bits)
  constructor <;> simp only [UartTx.posedge, air.state, atEnd, isLast, if_false, if_true,
    Bool.false_eq_true]
  · exact air.busy
  · exact air.packet

theorem ready_closed (clkPerBit : ℕ) (closing : Closing p b s) (c : Byte) (en : Bool) :
    Ready (s.posedge p clkPerBit false c en) := by
  constructor <;> simp [UartTx.posedge, closing.state]

/-- The transmitter counts as busy exactly while it is not idle. -/
theorem busy_posedge {rst : Bool} {c : Byte} {en : Bool} (busy : s.busy = (s.state != .idle)) :
    (s.posedge p clkPerBit rst c en).busy = ((s.posedge p clkPerBit rst c en).state != .idle) := by
  cases rst
  case true => rfl
  case false =>
    cases state : s.state <;> rw [state] at busy <;> simp only [UartTx.posedge, state]
    all_goals
      repeat' split
      all_goals first | rfl | exact busy

/-- The frame carries the byte it was made of. -/
theorem packetByte_frame (packet : s.packet = UartTx.frame p b) : s.packetByte = b := by
  have data : ((UartTx.frame p b).drop 1).take 8 = (List.range 8).map b.getLsbD := by
    simp only [UartTx.frame, List.cons_append, List.drop_succ_cons, List.drop_zero,
      List.append_assoc]
    rw [List.take_append_of_le_length (by simp), List.take_of_length_le (by simp)]
  rw [UartTx.packetByte, packet, data]
  apply BitVec.eq_of_getLsbD_eq
  intro j hj
  rw [BitVec.getLsbD_setWidth, BitVec.getLsbD_ofBoolListLE]
  simp [hj]

theorem frame_start (p : UartParams) (b : Byte) : (UartTx.frame p b).getD 0 true = false := by
  simp [UartTx.frame]

theorem frame_data (p : UartParams) (b : Byte) {j : ℕ} (data : j < 8) :
    (UartTx.frame p b).getD (j + 1) true = b.getLsbD j := by
  have inside : j < ((List.range 8).map b.getLsbD).length := by simpa using data
  rw [UartTx.frame, List.cons_append, List.cons_append, List.getD_cons_succ, List.append_assoc,
    List.getD_eq_getElem?_getD, List.getElem?_append_left inside]
  simp [data]

theorem frame_parity (one : p.parityBits = 1) (b : Byte) :
    (UartTx.frame p b).getD 9 true = parityOf b := by
  simp [UartTx.frame, one, List.getD_eq_getElem?_getD]

theorem frame_stop (b : Byte) {j : ℕ} (past : 9 + p.parityBits ≤ j) :
    (UartTx.frame p b).getD j true = true := by
  have before : (false :: (List.range 8).map b.getLsbD ++
      if 0 < p.parityBits then [parityOf b] else []).length ≤ j := by
    split <;> simp <;> omega
  rw [UartTx.frame, List.getD_eq_getElem?_getD, List.getElem?_append_right before,
    List.getElem?_replicate]
  repeat' split
  all_goals rfl

section Runs

/-- The transmitter at clock `n`, when `TX_dataIn` and `TX_en` are given clock by clock. -/
abbrev run (p : UartParams) (clkPerBit : ℕ) (s : UartTx) (i : ℕ → Byte × Bool) : ℕ → UartTx :=
  trajectory (fun t o => t.posedge p clkPerBit false o.1 o.2) s i

variable {i : ℕ → Byte × Bool} {m : ℕ}

theorem run_succ (p : UartParams) (clkPerBit : ℕ) (s : UartTx) (i : ℕ → Byte × Bool) (n : ℕ) :
    run p clkPerBit s i (n + 1) =
      (run p clkPerBit s i n).posedge p clkPerBit false (i n).1 (i n).2 := rfl

/-- The stop bits and whatever follows them are high. -/
theorem txOut_ready (p : UartParams) (clkPerBit : ℕ) (ready : Ready s) (c : Byte) (en : Bool) :
    (s.posedge p clkPerBit false c en).txOut = true := by
  cases en <;> simp [UartTx.posedge, ready.state]

private theorem txOut_closing (clkPerBit : ℕ) (closing : Closing p b s) (c : Byte) (en : Bool) :
    (s.posedge p clkPerBit false c en).txOut = s.txOut := by
  simp [UartTx.posedge, closing.state]

private theorem txOut_onAir (air : OnAir p clkPerBit b k s) (c : Byte) (en : Bool) :
    (s.posedge p clkPerBit false c en).txOut =
      (UartTx.frame p b).getD (k / clkPerBit) true := by
  rw [← air.packet, ← air.index]
  simp only [UartTx.posedge, air.state, Bool.false_eq_true, if_false]
  split
  · rfl
  · split <;> rfl

/-- A transmitter that is not asked to send stays ready. -/
theorem ready_quiet (ready : Ready (run p clkPerBit s i m))
    (quiet : ∀ j, m ≤ j → j < m + k → (i j).2 = false) :
    Ready (run p clkPerBit s i (m + k)) := by
  induction k with
  | zero => exact ready
  | succ k ih =>
    rw [← Nat.add_assoc, run_succ, quiet (m + k) (by omega) (by omega)]
    exact ready_idle _ _ _ (ih fun j lo hi => quiet j lo (by omega))

section Frame

variable (pos : 0 < clkPerBit) (fits : clkPerBit < 2 ^ p.clkBits)
  (ready : Ready (run p clkPerBit s i m)) (offer : i m = (b, true))

include pos fits ready offer

private theorem onAir_run (inside : k < frameClocks p clkPerBit) :
    OnAir p clkPerBit b k (run p clkPerBit s i (m + 1 + k)) := by
  induction k with
  | zero =>
    rw [Nat.add_zero, run_succ, offer]
    exact onAir_start ready
  | succ k ih => exact onAir_next pos fits (ih (by omega)) inside _ _

/-- The line shows the frame from the second clock after the offer on. -/
theorem txOut_run (inside : k < frameClocks p clkPerBit) :
    (run p clkPerBit s i (m + 2 + k)).txOut =
      (UartTx.frame p b).getD (k / clkPerBit) true := by
  rw [show m + 2 + k = m + 1 + k + 1 by omega]
  exact txOut_onAir (onAir_run pos fits ready offer inside) _ _

private theorem closing_run :
    Closing p b (run p clkPerBit s i (m + 1 + frameClocks p clkPerBit)) := by
  have some : 0 < frameClocks p clkPerBit := Nat.mul_pos (Nat.succ_pos _) pos
  obtain ⟨last, eq⟩ := Nat.exists_eq_add_of_lt some
  rw [eq, Nat.zero_add, ← Nat.add_assoc]
  exact onAir_last pos fits (onAir_run pos fits ready offer (by omega)) (by omega) _ _

/-- When the transmitter is ready again the line still shows the last stop bit. -/
theorem stop_run (stop : 0 < p.stopBits) :
    (run p clkPerBit s i (m + 2 + frameClocks p clkPerBit)).txOut = true := by
  have long : (9 + p.parityBits + 1) * clkPerBit ≤ frameClocks p clkPerBit :=
    Nat.mul_le_mul_right _ (by unfold UartParams.packetSize; omega)
  rw [Nat.succ_mul] at long
  obtain ⟨last, eq⟩ := Nat.exists_eq_add_of_lt (show 0 < frameClocks p clkPerBit by omega)
  have bit := txOut_run pos fits ready offer (show last < frameClocks p clkPerBit by omega)
  rw [frame_stop b ((Nat.le_div_iff_mul_le pos).mpr (by omega))] at bit
  rw [show m + 2 + frameClocks p clkPerBit = m + 1 + frameClocks p clkPerBit + 1 by omega,
    run_succ, txOut_closing _ (closing_run pos fits ready offer), ← bit]
  congr 2
  omega

theorem ready_run : Ready (run p clkPerBit s i (m + 2 + frameClocks p clkPerBit)) := by
  rw [show m + 2 + frameClocks p clkPerBit = m + 1 + frameClocks p clkPerBit + 1 by omega]
  exact ready_closed _ (closing_run pos fits ready offer) _ _

theorem busy_run (inside : k ≤ frameClocks p clkPerBit) :
    (run p clkPerBit s i (m + 1 + k)).busy = true := by
  by_cases air : k < frameClocks p clkPerBit
  · exact (onAir_run pos fits ready offer air).busy
  · rw [show k = frameClocks p clkPerBit by omega]
    exact (closing_run pos fits ready offer).busy

end Frame

end Runs

end RiscvSoc.Peripherals.TxFrame
