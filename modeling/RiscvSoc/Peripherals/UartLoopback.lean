/- GID: RiscvSoc/Peripherals/UartLoopback
   generality: G
   utility: main
   digest: The transmitter wired to the receiver: every byte offered arrives, once and in order. -/

import RiscvSoc.Peripherals.TxFrame
import RiscvSoc.Peripherals.RxFrame

set_option autoImplicit false
set_option relaxedAutoImplicit false

namespace RiscvSoc.Peripherals.UartLoopback

open RiscvSoc.Clocked.Trajectory
open RiscvSoc.Memory.ByteLanes
open RiscvSoc.Peripherals.Uart
open RiscvSoc.Peripherals.TxFrame
open RiscvSoc.Peripherals.RxFrame

/-- One clock edge of the `uart` module. -/
def posedge (p : UartParams) (clkPerBit : ℕ) (u : UartPair) (rst : Bool) (txDataIn : Byte)
    (txEn rxDataIn : Bool) : UartPair where
  tx := u.tx.posedge p clkPerBit rst txDataIn txEn
  rx := u.rx.posedge p clkPerBit rst rxDataIn

/-- The module with `TX_out` wired to `RX_dataIn`. -/
abbrev loop (p : UartParams) (clkPerBit : ℕ) (u : UartPair) (i : ℕ → Byte × Bool) :
    ℕ → UartPair :=
  trajectory (fun v o => posedge p clkPerBit v false o.1 o.2 v.tx.txOut) u i

/-- The bytes offered before clock `n`. -/
abbrev offered (i : ℕ → Byte × Bool) : ℕ → List Byte :=
  emitted (fun _ _ => ()) (fun _ o => if o.2 then [o.1] else []) () i

/-- What `RX_done` has delivered before clock `n`: the bytes with `RX_parityError`. -/
abbrev delivered (p : UartParams) (clkPerBit : ℕ) (u : UartPair) (i : ℕ → Byte × Bool) :
    ℕ → List (Byte × Bool) :=
  emitted (fun v o => posedge p clkPerBit v false o.1 o.2 v.tx.txOut)
    (fun v _ => pulse p v.rx) u i

section Wiring

variable (p : UartParams) (clkPerBit : ℕ) (u : UartPair) (i : ℕ → Byte × Bool)

private theorem tx_loop (n : ℕ) :
    (loop p clkPerBit u i n).tx = TxFrame.run p clkPerBit u.tx i n := by
  induction n with
  | zero => rfl
  | succ n ih => exact congrArg (fun t : UartTx => t.posedge p clkPerBit false (i n).1 (i n).2) ih

/-- `TX_out`, clock by clock. -/
def wire (n : ℕ) : Bool := (TxFrame.run p clkPerBit u.tx i n).txOut

private theorem rx_loop (n : ℕ) :
    (loop p clkPerBit u i n).rx = RxFrame.run p clkPerBit u.rx (wire p clkPerBit u i) n := by
  induction n with
  | zero => rfl
  | succ n ih =>
    change UartRx.posedge p clkPerBit (loop p clkPerBit u i n).rx false
      (loop p clkPerBit u i n).tx.txOut = _
    rw [ih, tx_loop]
    rfl

private theorem delivered_eq (n : ℕ) :
    delivered p clkPerBit u i n = received p clkPerBit u.rx (wire p clkPerBit u i) n := by
  induction n with
  | zero => rfl
  | succ n ih =>
    change delivered p clkPerBit u i n ++ pulse p (loop p clkPerBit u i n).rx = _
    rw [ih, rx_loop]
    rfl

end Wiring

section Frames

variable {p : UartParams} {clkPerBit : ℕ} {u : UartPair} {i : ℕ → Byte × Bool} {t : ℕ} {b : Byte}

private theorem offered_quiet {m k : ℕ} (quiet : ∀ j, m ≤ j → j < m + k → (i j).2 = false) :
    offered i (m + k) = offered i m := by
  apply emitted_quiet
  intro j inside
  rw [quiet (m + j) (by omega) (by omega)]
  rfl

private theorem offered_byte (offer : i t = (b, true)) :
    offered i (t + 1) = offered i t ++ [b] := by
  change offered i t ++ (if (i t).2 then [(i t).1] else []) = _
  rw [offer]
  rfl

/-- Between two frames: the transmitter is ready, and once the synchronizer has caught up the
receiver is idle and has delivered every byte. -/
structure InStep (p : UartParams) (clkPerBit : ℕ) (u : UartPair) (i : ℕ → Byte × Bool) (t : ℕ) :
    Prop where
  ready : Ready (TxFrame.run p clkPerBit u.tx i t)
  idle : (RxFrame.run p clkPerBit u.rx (wire p clkPerBit u i) (t + 4)).state = .idle
  all : received p clkPerBit u.rx (wire p clkPerBit u i) (t + 5) =
    (offered i t).map fun b => (b, false)

private theorem inStep_start (ready : Ready u.tx) (high : u.tx.txOut = true) (rest : Resting u.rx) :
    InStep p clkPerBit u i 0 := by
  have early : ∀ j < 4,
      (RxFrame.run p clkPerBit u.rx (wire p clkPerBit u i) j).regIn = true := by
    intro j inside
    apply regIn_resting rest
    intro x before
    obtain rfl | rfl : x = 0 ∨ x = 1 := by omega
    · exact high
    · exact txOut_ready p clkPerBit ready _ _
  obtain ⟨idle, -, quiet⟩ := resting_high rest early
  exact ⟨ready, idle, quiet⟩

private theorem inStep_quiet (here : InStep p clkPerBit u i t) (quiet : (i t).2 = false) :
    InStep p clkPerBit u i (t + 1) := by
  have ready : Ready (TxFrame.run p clkPerBit u.tx i (t + 1)) := by
    rw [TxFrame.run_succ, quiet]
    exact ready_idle _ _ _ here.ready
  have high : (RxFrame.run p clkPerBit u.rx (wire p clkPerBit u i) (t + 4)).regIn = true := by
    rw [regIn_run (t + 2), wire, TxFrame.run_succ]
    exact txOut_ready _ _ ready _ _
  have now : ∀ j, t + 4 ≤ j → j < t + 4 + 1 →
      (RxFrame.run p clkPerBit u.rx (wire p clkPerBit u i) j).regIn = true := by
    intro j lo hi
    rw [show j = t + 4 by omega, high]
  refine ⟨ready, (idle_high here.idle now).1, ?_⟩
  rw [show t + 1 + 5 = t + 4 + 1 + 1 by omega, received_high here.idle now, here.all,
    offered_quiet (k := 1) fun j lo hi => by rw [show j = t by omega, quiet]]

section Offer

variable (parity : p.parityBits ≤ 1) (stop : 0 < p.stopBits) (two : 2 ≤ clkPerBit)
  (fits : clkPerBit < 2 ^ p.clkBits) (here : InStep p clkPerBit u i t) (offer : i t = (b, true))

include two fits here offer

private theorem regIn_frame {k : ℕ} (inside : k < frameClocks p clkPerBit) :
    (RxFrame.run p clkPerBit u.rx (wire p clkPerBit u i) (t + 4 + k)).regIn =
      (UartTx.frame p b).getD (k / clkPerBit) true := by
  rw [show t + 4 + k = t + 2 + k + 2 by omega, regIn_run, wire]
  exact txOut_run (by omega) fits here.ready offer inside

private theorem start_frame :
    (RxFrame.run p clkPerBit u.rx (wire p clkPerBit u i) (t + 4)).regIn = false := by
  have frame : 0 < frameClocks p clkPerBit := Nat.mul_pos (Nat.succ_pos _) (by omega)
  have bit := regIn_frame two fits here offer frame
  rwa [Nat.zero_div, frame_start] at bit

include stop

private theorem sampled_frame {j : ℕ} (inside : j < 8 + p.parityBits) :
    sampled p clkPerBit u.rx (wire p clkPerBit u i) (t + 4) j =
      (UartTx.frame p b).getD (j + 1) true := by
  have half : halfBit clkPerBit + 1 < clkPerBit := by unfold halfBit; omega
  have bit : (clkPerBit * (j + 1) + (halfBit clkPerBit + 1)) / clkPerBit = j + 1 := by
    rw [Nat.mul_add_div (by omega), Nat.div_eq_of_lt half, Nat.add_zero]
  have past : clkPerBit * (j + 2) ≤ frameClocks p clkPerBit := by
    rw [frameClocks, UartParams.packetSize, Nat.mul_comm]
    exact Nat.mul_le_mul_right _ (by omega)
  have frame : clkPerBit * (j + 1) + (halfBit clkPerBit + 1) < frameClocks p clkPerBit := by
    rw [Nat.mul_succ] at past
    omega
  have seen := regIn_frame two fits here offer frame
  rw [bit] at seen
  rw [sampled, ← seen]
  congr 2
  omega

private theorem high_frame {k : ℕ} (past : clkPerBit * (9 + p.parityBits) ≤ k)
    (before : k < frameClocks p clkPerBit + 2) :
    (RxFrame.run p clkPerBit u.rx (wire p clkPerBit u i) (t + 4 + k)).regIn = true := by
  by_cases inside : k < frameClocks p clkPerBit
  · rw [regIn_frame two fits here offer inside]
    apply frame_stop
    rw [Nat.le_div_iff_mul_le (by omega), Nat.mul_comm]
    exact past
  · obtain closing | ready : k = frameClocks p clkPerBit ∨ k = frameClocks p clkPerBit + 1 := by
      omega
    · rw [closing, show t + 4 + frameClocks p clkPerBit = t + 2 + frameClocks p clkPerBit + 2 by
        omega, regIn_run]
      exact stop_run (by omega) fits here.ready offer stop
    · rw [ready, show t + 4 + (frameClocks p clkPerBit + 1) =
        t + 2 + frameClocks p clkPerBit + 1 + 2 by omega, regIn_run, wire, TxFrame.run_succ]
      exact txOut_ready _ _ (ready_run (by omega) fits here.ready offer) _ _

include parity

private theorem delivered_frame :
    received p clkPerBit u.rx (wire p clkPerBit u i) (t + 4 + roundClocks clkPerBit + 1) =
      ((offered i t).map fun b => (b, false)) ++ [(b, false)] := by
  have byte : gather (sampled p clkPerBit u.rx (wire p clkPerBit u i) (t + 4)) 8 = b := by
    rw [gather_eq_iff]
    intro j data
    rw [sampled_frame stop two fits here offer (by omega), frame_data p b data]
  rw [received_round (by omega) fits here.idle (start_frame two fits here offer), byte, here.all]
  congr 3
  by_cases one : 0 < p.parityBits
  · rw [if_pos one, sampled_frame stop two fits here offer (by omega),
      frame_parity (by omega), Bool.xor_self]
  · rw [if_neg one]

private theorem inStep_offer
    (polite : ∀ n, (i n).2 = true → (TxFrame.run p clkPerBit u.tx i n).busy = false) :
    InStep p clkPerBit u i (t + 2 + frameClocks p clkPerBit) ∧
      ∀ n, t < n → n ≤ t + 2 + frameClocks p clkPerBit → offered i n = offered i t ++ [b] := by
  have pos : 0 < clkPerBit := by omega
  have round : roundClocks clkPerBit ≤ frameClocks p clkPerBit + 2 := by
    have long : 10 * clkPerBit ≤ frameClocks p clkPerBit :=
      Nat.mul_le_mul_right _ (by unfold UartParams.packetSize; omega)
    unfold roundClocks halfBit
    omega
  have data : clkPerBit * (9 + p.parityBits) ≤ roundClocks clkPerBit := by
    have bit : clkPerBit * p.parityBits ≤ clkPerBit * 1 := Nat.mul_le_mul_left _ parity
    unfold roundClocks halfBit
    rw [Nat.mul_add]
    omega
  have log : ∀ n, t < n → n ≤ t + 2 + frameClocks p clkPerBit →
      offered i n = offered i t ++ [b] := by
    intro n after before
    obtain ⟨k, rfl⟩ := Nat.exists_eq_add_of_lt after
    rw [← offered_byte offer, show t + k + 1 = t + 1 + k by omega]
    apply offered_quiet
    intro j lo hi
    by_contra en
    obtain ⟨x, rfl⟩ := Nat.exists_eq_add_of_le lo
    have busy := busy_run pos fits here.ready offer (show x ≤ frameClocks p clkPerBit by omega)
    rw [polite _ (by simpa using en)] at busy
    exact absurd busy (by simp)
  have hears := hears_run pos fits here.idle (start_frame two fits here offer)
  obtain ⟨x, rest⟩ := Nat.exists_eq_add_of_le round
  have high : ∀ j, t + 4 + roundClocks clkPerBit ≤ j → j < t + 4 + roundClocks clkPerBit + x →
      (RxFrame.run p clkPerBit u.rx (wire p clkPerBit u i) j).regIn = true := by
    intro j lo hi
    obtain ⟨y, rfl⟩ := Nat.exists_eq_add_of_le lo
    rw [Nat.add_assoc]
    exact high_frame stop two fits here offer (by omega) (by omega)
  have idle := (idle_high hears.state high).1
  have quiet := received_high hears.state high
  rw [show t + 4 + roundClocks clkPerBit + x = t + 2 + frameClocks p clkPerBit + 4 by omega]
    at idle
  rw [show t + 4 + roundClocks clkPerBit + 1 + x = t + 2 + frameClocks p clkPerBit + 5 by omega]
    at quiet
  refine ⟨⟨ready_run pos fits here.ready offer, idle, ?_⟩, log⟩
  rw [quiet, delivered_frame parity stop two fits here offer, log _ (by omega) le_rfl,
    List.map_append, List.map_singleton]

end Offer

end Frames

section Runs

variable {p : UartParams} {clkPerBit : ℕ} {u : UartPair} {i : ℕ → Byte × Bool}

private theorem inStep_or_frame (parity : p.parityBits ≤ 1) (stop : 0 < p.stopBits)
    (two : 2 ≤ clkPerBit)
    (fits : clkPerBit < 2 ^ p.clkBits) (start : InStep p clkPerBit u i 0)
    (polite : ∀ n, (i n).2 = true → (TxFrame.run p clkPerBit u.tx i n).busy = false) (n : ℕ) :
    ∃ t, t ≤ n ∧ InStep p clkPerBit u i t ∧
      (t = n ∨ (i t).2 = true ∧ n < t + 2 + frameClocks p clkPerBit) := by
  induction n with
  | zero => exact ⟨0, le_rfl, start, Or.inl rfl⟩
  | succ n ih =>
    obtain ⟨t, le, here, now⟩ := ih
    by_cases offer : (i t).2 = true
    · by_cases ended : n + 1 = t + 2 + frameClocks p clkPerBit
      · have next := (inStep_offer parity stop two fits here (b := (i t).1)
          (Prod.ext rfl offer) polite).1
        exact ⟨n + 1, le_rfl, ended ▸ next, Or.inl rfl⟩
      · exact ⟨t, by omega, here, Or.inr ⟨offer, by omega⟩⟩
    · rcases now with rfl | ⟨offer', -⟩
      · exact ⟨t + 1, le_rfl, inStep_quiet here (Bool.eq_false_iff.mpr offer), Or.inl rfl⟩
      · exact absurd offer' offer

private theorem inStep_silent {t : ℕ} (here : InStep p clkPerBit u i t) (k : ℕ)
    (silent : ∀ j, t ≤ j → j < t + k → (i j).2 = false) : InStep p clkPerBit u i (t + k) := by
  induction k with
  | zero => exact here
  | succ k ih =>
    have last := silent (t + k) (by omega) (by omega)
    exact inStep_quiet (ih fun j lo hi => silent j lo (by omega)) last

/-- Loopback. Whatever is offered to a transmitter that is not busy is received, once, in order
and without a parity error, and nothing else is: at any time what has been received is a prefix
of what has been offered, and a frame after the last offer it is all of it. -/
theorem received_exactly_offered (parity : p.parityBits = 0 ∨ p.parityBits = 1)
    (stop : p.stopBits = 1 ∨ p.stopBits = 2) (two : 2 ≤ clkPerBit)
    (fits : clkPerBit < 2 ^ p.clkBits) (ready : Ready u.tx) (high : u.tx.txOut = true)
    (rest : Resting u.rx)
    (polite : ∀ n, (i n).2 = true → (loop p clkPerBit u i n).tx.busy = false) :
    (∀ n, delivered p clkPerBit u i n <+: (offered i n).map fun b => (b, false)) ∧
      ∀ m, (∀ n, m ≤ n → (i n).2 = false) → ∀ n, m + frameClocks p clkPerBit + 7 ≤ n →
        delivered p clkPerBit u i n = (offered i m).map fun b => (b, false) := by
  have free : ∀ n, (i n).2 = true → (TxFrame.run p clkPerBit u.tx i n).busy = false := by
    intro n offer
    rw [← tx_loop]
    exact polite n offer
  have cover := inStep_or_frame (by omega) (by omega) two fits (inStep_start ready high rest) free
  constructor
  · intro n
    obtain ⟨t, le, here, now⟩ := cover n
    rw [delivered_eq]
    rcases now with rfl | ⟨offer, inside⟩
    · rw [← here.all]
      exact emitted_mono (by omega)
    · by_cases first : t = n
      · subst first
        rw [← here.all]
        exact emitted_mono (by omega)
      · obtain ⟨next, log⟩ := inStep_offer (by omega) (by omega) two fits here (b := (i t).1)
          (Prod.ext rfl offer) free
        rw [log n (by omega) (by omega), ← log _ (by omega) le_rfl, ← next.all]
        exact emitted_mono (by omega)
  · intro m silent n late
    obtain ⟨t, le, after, here⟩ : ∃ t, t ≤ m + 2 + frameClocks p clkPerBit ∧ m ≤ t ∧
        InStep p clkPerBit u i t := by
      obtain ⟨t, le, here, now⟩ := cover m
      rcases now with rfl | ⟨offer, inside⟩
      · exact ⟨t, by omega, le_rfl, here⟩
      · exact ⟨_, by omega, inside.le,
          (inStep_offer (by omega) (by omega) two fits here (b := (i t).1)
            (Prod.ext rfl offer) free).1⟩
    obtain ⟨k, rfl⟩ := Nat.exists_eq_add_of_le (show t + 5 ≤ n by omega)
    have last := inStep_silent here k fun j lo _ => silent j (by omega)
    obtain ⟨x, past⟩ := Nat.exists_eq_add_of_le after
    rw [delivered_eq, show t + 5 + k = t + k + 5 by omega, last.all, past, Nat.add_assoc,
      offered_quiet fun j lo _ => silent j lo]

/-- Two bytes, the second one offered in the first clock in which the transmitter is free again
after the first. -/
def twoOffers (n : ℕ) : Byte × Bool := (if n = 0 then 0x35 else 0xFF, n == 0 || n == 24)

theorem received_exactly_offered_twice :
    delivered ⟨8, 1, 1⟩ 2 ⟨idleTx, idleRx⟩ twoOffers 60 = [(0x35, false), (0xFF, false)] := by
  have polite : ∀ n, (twoOffers n).2 = true →
      (loop ⟨8, 1, 1⟩ 2 ⟨idleTx, idleRx⟩ twoOffers n).tx.busy = false := by
    intro n offer
    obtain rfl | rfl : n = 0 ∨ n = 24 := by simpa [twoOffers] using offer
    · rfl
    · decide +kernel
  have silent : ∀ n, 25 ≤ n → (twoOffers n).2 = false := by
    intro n late
    simp only [twoOffers, Bool.or_eq_false_iff, beq_eq_false_iff_ne]
    omega
  exact ((received_exactly_offered (Or.inr rfl) (Or.inl rfl) le_rfl (by decide) ⟨rfl, rfl⟩ rfl
    resting_idleRx polite).2 25 silent 60 (by decide)).trans (by decide +kernel)

end Runs

end RiscvSoc.Peripherals.UartLoopback
