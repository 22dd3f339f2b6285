/- GID: RiscvSoc/Peripherals/RxFrame
   generality: G
   utility: support
   digest: The receiver from a start bit to the pulse that delivers the byte, on any line. -/

import RiscvSoc.Peripherals.Uart
import RiscvSoc.Clocked.Trajectory
import Mathlib.Tactic.Ring

set_option autoImplicit false
set_option relaxedAutoImplicit false

namespace RiscvSoc.Peripherals.RxFrame

open RiscvSoc.Clocked.Trajectory
open RiscvSoc.Memory.ByteLanes
open RiscvSoc.Peripherals.Uart

section Byte

/-- `dataOut` after the first `n` samples. -/
def gather (bits : ℕ → Bool) : ℕ → Byte
  | 0 => 0
  | n + 1 => UartRx.setBit (gather bits n) n (bits n)

private theorem getLsbD_setBit (b : Byte) (k : ℕ) (v : Bool) (j : ℕ) (inside : j < 8) :
    (UartRx.setBit b k v).getLsbD j = if j = k then v else b.getLsbD j := by
  have one : (1#8 <<< k).getLsbD j = decide (j = k) := by
    rw [BitVec.getLsbD_shiftLeft, BitVec.getLsbD_one]
    simp only [inside, decide_true, Bool.true_and]
    by_cases same : j = k
    · simp [same]
    · by_cases below : j < k
      · simp [below, same]
      · have apart : j - k ≠ 0 := by omega
        simp [apart, same]
  cases v with
  | true =>
    simp only [UartRx.setBit, if_true, BitVec.getLsbD_or, one]
    by_cases same : j = k <;> simp [same]
  | false =>
    simp only [UartRx.setBit, Bool.false_eq_true, if_false, BitVec.getLsbD_and,
      BitVec.getLsbD_not, inside, one]
    by_cases same : j = k <;> simp [same]

theorem getLsbD_gather (bits : ℕ → Bool) (n j : ℕ) (inside : j < 8) :
    (gather bits n).getLsbD j = (decide (j < n) && bits j) := by
  induction n with
  | zero => simp [gather]
  | succ n ih =>
    rw [gather, getLsbD_setBit _ _ _ _ inside, ih]
    by_cases same : j = n
    · simp [same]
    · have both : (j < n + 1) ↔ j < n := by omega
      simp [same, both]

theorem gather_eq_iff (bits : ℕ → Bool) (b : Byte) :
    gather bits 8 = b ↔ ∀ j < 8, bits j = b.getLsbD j := by
  constructor
  · intro eq j inside
    rw [← eq, getLsbD_gather bits 8 j inside]
    simp [inside]
  · intro same
    apply BitVec.eq_of_getLsbD_eq
    intro j inside
    rw [getLsbD_gather bits 8 j inside, ← same j inside]
    simp [inside]

end Byte

/-- Half a bit, as `START` and `DONE` wait for it. -/
def halfBit (clkPerBit : ℕ) : ℕ := (clkPerBit - 1) / 2

def roundClocks (clkPerBit : ℕ) : ℕ := 9 * clkPerBit + 2 * halfBit clkPerBit + 3

section Edges

/-- Clock `k` of `START`. -/
structure Starts (k : ℕ) (s : UartRx) : Prop where
  state : s.state = .start
  clkCount : s.clkCount = k
  index : s.index = 0
  dataOut : s.dataOut = 0
  dataDone : s.dataDone = false

/-- Clock `k` of the wait for sample `n`. -/
structure Samples (bits : ℕ → Bool) (n k : ℕ) (s : UartRx) : Prop where
  state : s.state = .receive
  clkCount : s.clkCount = k
  index : s.index = n
  dataOut : s.dataOut = gather bits n
  dataDone : s.dataDone = false

/-- Clock `k` of `DONE`. -/
structure Finishes (p : UartParams) (bits : ℕ → Bool) (k : ℕ) (s : UartRx) : Prop where
  state : s.state = .done
  clkCount : s.clkCount = k
  dataOut : s.dataOut = gather bits 8
  dataDone : s.dataDone = false
  parity : 0 < p.parityBits → s.parity = bits 8

/-- The clock of the pulse. -/
structure Hears (p : UartParams) (bits : ℕ → Bool) (s : UartRx) : Prop where
  state : s.state = .idle
  dataDone : s.dataDone = true
  rxOut : s.rxOut = gather bits 8
  parity : 0 < p.parityBits → s.parity = bits 8

variable {p : UartParams} {clkPerBit : ℕ} {s : UartRx} {bits : ℕ → Bool} {n k : ℕ}

private theorem regIn_posedge (p : UartParams) (clkPerBit : ℕ) (s : UartRx) (rst d : Bool) :
    (s.posedge p clkPerBit rst d).regIn = s.regInMeta := by
  unfold UartRx.posedge
  repeat' split
  all_goals rfl

private theorem regInMeta_posedge (p : UartParams) (clkPerBit : ℕ) (s : UartRx) (rst d : Bool) :
    (s.posedge p clkPerBit rst d).regInMeta = d := by
  unfold UartRx.posedge
  repeat' split
  all_goals rfl

private theorem idle_of_high (p : UartParams) (clkPerBit : ℕ) (idle : s.state = .idle)
    (high : s.regIn = true) (d : Bool) :
    (s.posedge p clkPerBit false d).state = .idle ∧
      (s.posedge p clkPerBit false d).dataDone = false := by
  simp [UartRx.posedge, idle, high]

private theorem starts_of_low (p : UartParams) (clkPerBit : ℕ) (idle : s.state = .idle)
    (low : s.regIn = false) (d : Bool) : Starts 0 (s.posedge p clkPerBit false d) := by
  constructor <;> simp [UartRx.posedge, idle, low]

private theorem halfBit_eq (pos : 0 < clkPerBit) (fits : clkPerBit < 2 ^ p.clkBits) :
    p.bitEnd clkPerBit / 2 = halfBit clkPerBit := by
  rw [p.bitEnd_eq pos fits, halfBit]

private theorem before_halfBit (pos : 0 < clkPerBit) (fits : clkPerBit < 2 ^ p.clkBits)
    (count : s.clkCount = k) (more : k < halfBit clkPerBit) :
    ¬s.clkCount = p.bitEnd clkPerBit / 2 ∧ (s.clkCount + 1) % 2 ^ p.clkBits = k + 1 := by
  have half := halfBit_eq (p := p) pos fits
  have bound : halfBit clkPerBit < clkPerBit := by unfold halfBit; omega
  refine ⟨by omega, ?_⟩
  rw [count, Nat.mod_eq_of_lt (by omega)]

private theorem starts_next (pos : 0 < clkPerBit) (fits : clkPerBit < 2 ^ p.clkBits)
    (here : Starts k s) (more : k < halfBit clkPerBit) (d : Bool) :
    Starts (k + 1) (s.posedge p clkPerBit false d) := by
  obtain ⟨going, next⟩ := before_halfBit pos fits here.clkCount more
  constructor <;> simp only [UartRx.posedge, here.state, going, if_false, Bool.false_eq_true]
  · exact next
  · exact here.index
  · exact here.dataOut
  · exact here.dataDone

private theorem samples_start (bits : ℕ → Bool) (pos : 0 < clkPerBit)
    (fits : clkPerBit < 2 ^ p.clkBits) (here : Starts (halfBit clkPerBit) s) (d : Bool) :
    Samples bits 0 0 (s.posedge p clkPerBit false d) := by
  have ended : s.clkCount = p.bitEnd clkPerBit / 2 := by rw [here.clkCount, halfBit_eq pos fits]
  constructor <;> simp only [UartRx.posedge, here.state, ended, if_true, if_false,
    Bool.false_eq_true]
  · exact here.index
  · exact here.dataOut
  · exact here.dataDone

private theorem samples_wait (fits : clkPerBit < 2 ^ p.clkBits) (here : Samples bits n k s)
    (more : k + 1 < clkPerBit) (d : Bool) :
    Samples bits n (k + 1) (s.posedge p clkPerBit false d) := by
  have going : s.clkCount < p.bitEnd clkPerBit := by
    rw [here.clkCount, p.bitEnd_eq (by omega) fits]; omega
  constructor <;> simp only [UartRx.posedge, here.state, going, if_true, if_false,
    Bool.false_eq_true]
  · rw [here.clkCount, Nat.mod_eq_of_lt (by omega)]
  · exact here.index
  · exact here.dataOut
  · exact here.dataDone

private theorem nine_lt (p : UartParams) : 8 < 2 ^ p.indexBits := by
  have := p.packetSize_le
  unfold UartParams.packetSize at this
  omega

private theorem samples_take (pos : 0 < clkPerBit) (fits : clkPerBit < 2 ^ p.clkBits)
    (here : Samples bits n k s) (last : k + 1 = clkPerBit) (data : n < 8)
    (bit : s.regIn = bits n) (d : Bool) :
    Samples bits (n + 1) 0 (s.posedge p clkPerBit false d) := by
  have ended : ¬s.clkCount < p.bitEnd clkPerBit := by
    rw [here.clkCount, p.bitEnd_eq pos fits]; omega
  have inside : s.index < 8 := by rw [here.index]; exact data
  have wide := nine_lt p
  constructor <;> simp only [UartRx.posedge, here.state, ended, inside, if_true, if_false,
    Bool.false_eq_true]
  · rw [here.index, Nat.mod_eq_of_lt (by omega)]
  · rw [here.index, here.dataOut, bit, gather]
  · exact here.dataDone

private theorem finishes_start (pos : 0 < clkPerBit) (fits : clkPerBit < 2 ^ p.clkBits)
    (here : Samples bits 8 k s) (last : k + 1 = clkPerBit) (bit : s.regIn = bits 8) (d : Bool) :
    Finishes p bits 0 (s.posedge p clkPerBit false d) := by
  have ended : ¬s.clkCount < p.bitEnd clkPerBit := by
    rw [here.clkCount, p.bitEnd_eq pos fits]; omega
  by_cases parity : 0 < p.parityBits
  · constructor <;> simp only [UartRx.posedge, here.state, ended, here.index, parity, if_true,
      if_false, Bool.false_eq_true, lt_irrefl, and_self]
    · exact here.dataOut
    · exact here.dataDone
    · exact fun _ => bit
  · constructor <;> simp only [UartRx.posedge, here.state, ended, here.index, parity, if_false,
      Bool.false_eq_true, lt_irrefl, and_false, false_implies]
    · exact here.dataOut
    · exact here.dataDone

private theorem finishes_next (pos : 0 < clkPerBit) (fits : clkPerBit < 2 ^ p.clkBits)
    (here : Finishes p bits k s) (more : k < halfBit clkPerBit) (d : Bool) :
    Finishes p bits (k + 1) (s.posedge p clkPerBit false d) := by
  obtain ⟨going, next⟩ := before_halfBit pos fits here.clkCount more
  constructor <;> simp only [UartRx.posedge, here.state, going, if_false, Bool.false_eq_true]
  · exact next
  · exact here.dataOut
  · exact here.dataDone
  · exact here.parity

private theorem hears_of_finishes (pos : 0 < clkPerBit) (fits : clkPerBit < 2 ^ p.clkBits)
    (here : Finishes p bits (halfBit clkPerBit) s) (d : Bool) :
    Hears p bits (s.posedge p clkPerBit false d) := by
  have ended : s.clkCount = p.bitEnd clkPerBit / 2 := by rw [here.clkCount, halfBit_eq pos fits]
  constructor <;> simp only [UartRx.posedge, here.state, ended, if_true, if_false,
    Bool.false_eq_true]
  · exact here.dataOut
  · exact here.parity

end Edges

section Runs

/-- The receiver at clock `n` on a line. -/
abbrev run (p : UartParams) (clkPerBit : ℕ) (s : UartRx) (line : ℕ → Bool) : ℕ → UartRx :=
  trajectory (fun t d => t.posedge p clkPerBit false d) s line

/-- What `RX_done` delivers in one clock: the byte and `RX_parityError`. -/
def pulse (p : UartParams) (s : UartRx) : List (Byte × Bool) :=
  if s.rxDone then [(s.rxOut, s.parityError p)] else []

/-- What has been delivered before clock `n`. -/
abbrev received (p : UartParams) (clkPerBit : ℕ) (s : UartRx) (line : ℕ → Bool) :
    ℕ → List (Byte × Bool) :=
  emitted (fun t d => t.posedge p clkPerBit false d) (fun t _ => pulse p t) s line

variable {p : UartParams} {clkPerBit : ℕ} {s : UartRx} {line : ℕ → Bool} {m n k : ℕ}

private theorem received_succ (p : UartParams) (clkPerBit : ℕ) (s : UartRx) (line : ℕ → Bool)
    (n : ℕ) :
    received p clkPerBit s line (n + 1) =
      received p clkPerBit s line n ++ pulse p (run p clkPerBit s line n) := rfl

/-- The synchronizer delays the line by two clocks. -/
theorem regIn_run (n : ℕ) : (run p clkPerBit s line (n + 2)).regIn = line n :=
  (regIn_posedge p clkPerBit (run p clkPerBit s line (n + 1)) false (line (n + 1))).trans
    (regInMeta_posedge p clkPerBit (run p clkPerBit s line n) false (line n))

private theorem pulse_quiet {t : UartRx} (quiet : t.dataDone = false) : pulse p t = [] := by
  simp [pulse, UartRx.rxDone, quiet]

/-- An idle receiver that sees a high line stays idle and delivers nothing. -/
theorem idle_high (idle : (run p clkPerBit s line m).state = .idle)
    (high : ∀ j, m ≤ j → j < m + k → (run p clkPerBit s line j).regIn = true) :
    (run p clkPerBit s line (m + k)).state = .idle ∧
      (0 < k → (run p clkPerBit s line (m + k)).dataDone = false) := by
  induction k with
  | zero => exact ⟨idle, fun none => absurd none (by decide)⟩
  | succ k ih =>
    have still := (ih fun j lo hi => high j lo (by omega)).1
    obtain ⟨next, quiet⟩ := idle_of_high p clkPerBit still (high (m + k) (by omega) (by omega))
      (line (m + k))
    exact ⟨next, fun _ => quiet⟩

theorem received_high (idle : (run p clkPerBit s line m).state = .idle)
    (high : ∀ j, m ≤ j → j < m + k → (run p clkPerBit s line j).regIn = true) :
    received p clkPerBit s line (m + 1 + k) = received p clkPerBit s line (m + 1) := by
  apply emitted_quiet
  intro j inside
  have here := idle_high (k := 1 + j) idle fun x lo hi => high x lo (by omega)
  rw [← Nat.add_assoc] at here
  exact pulse_quiet (here.2 (by omega))

/-- An idle receiver on an idle line. -/
structure Resting (s : UartRx) : Prop where
  state : s.state = .idle
  regInMeta : s.regInMeta = true
  regIn : s.regIn = true
  dataDone : s.dataDone = false

theorem resting_idleRx : Resting idleRx := by constructor <;> rfl

theorem regIn_resting (rest : Resting s) (high : ∀ j, j + 2 ≤ n → line j = true) :
    (run p clkPerBit s line n).regIn = true := by
  match n with
  | 0 => exact rest.regIn
  | 1 => exact (regIn_posedge p clkPerBit s false (line 0)).trans rest.regInMeta
  | n + 2 => rw [regIn_run, high n le_rfl]

/-- At rest the receiver waits and delivers nothing as long as the line is high. -/
theorem resting_high (rest : Resting s)
    (high : ∀ j < k, (run p clkPerBit s line j).regIn = true) :
    (run p clkPerBit s line k).state = .idle ∧ (run p clkPerBit s line k).dataDone = false ∧
      received p clkPerBit s line (k + 1) = [] := by
  have first : (run p clkPerBit s line 0).state = .idle := rest.state
  have idle := idle_high (k := k) first fun j _ hi => high j (by omega)
  have quiet := received_high (k := k) first fun j _ hi => high j (by omega)
  rw [Nat.zero_add] at idle quiet
  refine ⟨idle.1, ?_, ?_⟩
  · rcases Nat.eq_zero_or_pos k with rfl | pos
    · exact rest.dataDone
    · exact idle.2 pos
  · rw [Nat.add_comm k 1, quiet]
    change [] ++ pulse p s = []
    rw [pulse_quiet rest.dataDone, List.append_nil]

/-- The bits sampled in the frame whose start bit is seen in clock `m`. -/
def sampled (p : UartParams) (clkPerBit : ℕ) (s : UartRx) (line : ℕ → Bool) (m i : ℕ) : Bool :=
  (run p clkPerBit s line (m + 1 + halfBit clkPerBit + clkPerBit * (i + 1))).regIn

def Within (s : UartRx) : Prop := s.state ≠ .idle ∧ s.dataDone = false

section Round

variable (pos : 0 < clkPerBit) (fits : clkPerBit < 2 ^ p.clkBits)
  (idle : (run p clkPerBit s line m).state = .idle)
  (low : (run p clkPerBit s line m).regIn = false)

include pos fits idle low

private theorem starts_run (inside : k ≤ halfBit clkPerBit) :
    Starts k (run p clkPerBit s line (m + 1 + k)) := by
  induction k with
  | zero => exact starts_of_low p clkPerBit idle low _
  | succ k ih => exact starts_next pos fits (ih (by omega)) (by omega) _

private theorem samples_run (data : n ≤ 8) (inside : k < clkPerBit) :
    Samples (sampled p clkPerBit s line m) n k
      (run p clkPerBit s line (m + 2 + halfBit clkPerBit + clkPerBit * n + k)) := by
  induction n generalizing k with
  | zero =>
    induction k with
    | zero =>
      rw [show m + 2 + halfBit clkPerBit + clkPerBit * 0 + 0 =
        m + 1 + halfBit clkPerBit + 1 by omega]
      exact samples_start _ pos fits (starts_run pos fits idle low le_rfl) _
    | succ k ih => exact samples_wait fits (ih (by omega)) inside _
  | succ n before =>
    induction k with
    | zero =>
      have last := before (by omega) (k := clkPerBit - 1) (by omega)
      have clock : m + 2 + halfBit clkPerBit + clkPerBit * n + (clkPerBit - 1) =
          m + 1 + halfBit clkPerBit + clkPerBit * (n + 1) := by
        rw [Nat.mul_add]; omega
      rw [clock] at last
      rw [show m + 2 + halfBit clkPerBit + clkPerBit * (n + 1) + 0 =
        m + 1 + halfBit clkPerBit + clkPerBit * (n + 1) + 1 by omega]
      exact samples_take pos fits last (by omega) (by omega) rfl _
    | succ k ih => exact samples_wait fits (ih (by omega)) inside _

private theorem finishes_run (inside : k ≤ halfBit clkPerBit) :
    Finishes p (sampled p clkPerBit s line m) k
      (run p clkPerBit s line (m + 2 + halfBit clkPerBit + clkPerBit * 9 + k)) := by
  induction k with
  | zero =>
    have last := samples_run pos fits idle low (n := 8) le_rfl (k := clkPerBit - 1) (by omega)
    have clock : m + 2 + halfBit clkPerBit + clkPerBit * 8 + (clkPerBit - 1) =
        m + 1 + halfBit clkPerBit + clkPerBit * (8 + 1) := by omega
    rw [clock] at last
    rw [show m + 2 + halfBit clkPerBit + clkPerBit * 9 + 0 =
      m + 1 + halfBit clkPerBit + clkPerBit * (8 + 1) + 1 by omega]
    exact finishes_start pos fits last (by omega) rfl _
  | succ k ih => exact finishes_next pos fits (ih (by omega)) (by omega) _

theorem hears_run :
    Hears p (sampled p clkPerBit s line m)
      (run p clkPerBit s line (m + roundClocks clkPerBit)) := by
  have last := finishes_run pos fits idle low le_rfl
  rw [show m + roundClocks clkPerBit =
    m + 2 + halfBit clkPerBit + clkPerBit * 9 + halfBit clkPerBit + 1 by
      unfold roundClocks; omega]
  exact hears_of_finishes pos fits last _

/-- Between the start bit and the pulse the receiver is busy and delivers nothing. -/
theorem within_run (after : 0 < k) (before : k < roundClocks clkPerBit) :
    Within (run p clkPerBit s line (m + k)) := by
  unfold roundClocks at before
  by_cases start : k ≤ halfBit clkPerBit + 1
  · have here := starts_run pos fits idle low (k := k - 1) (by omega)
    rw [show m + 1 + (k - 1) = m + k by omega] at here
    exact ⟨by simp [here.state], here.dataDone⟩
  · by_cases data : k < 2 + halfBit clkPerBit + clkPerBit * 9
    · have split := Nat.div_add_mod (k - 2 - halfBit clkPerBit) clkPerBit
      have small := Nat.mod_lt (k - 2 - halfBit clkPerBit) pos
      have nine : (k - 2 - halfBit clkPerBit) / clkPerBit < 9 := by
        rw [Nat.div_lt_iff_lt_mul pos]; omega
      have here := samples_run pos fits idle low (Nat.le_of_lt_succ nine) small
      rw [show m + 2 + halfBit clkPerBit + clkPerBit * ((k - 2 - halfBit clkPerBit) / clkPerBit) +
        (k - 2 - halfBit clkPerBit) % clkPerBit = m + k by omega] at here
      exact ⟨by simp [here.state], here.dataDone⟩
    · have here := finishes_run pos fits idle low
        (k := k - (2 + halfBit clkPerBit + clkPerBit * 9)) (by omega)
      rw [show m + 2 + halfBit clkPerBit + clkPerBit * 9 +
        (k - (2 + halfBit clkPerBit + clkPerBit * 9)) = m + k by omega] at here
      exact ⟨by simp [here.state], here.dataDone⟩

private theorem received_within (before : k < roundClocks clkPerBit) :
    received p clkPerBit s line (m + 1 + k) = received p clkPerBit s line (m + 1) := by
  apply emitted_quiet
  intro j inside
  have here := within_run pos fits idle low (k := 1 + j) (by omega) (by omega)
  rw [← Nat.add_assoc] at here
  exact pulse_quiet here.2

/-- One round: the byte of the nine samples is delivered, once. -/
theorem received_round :
    received p clkPerBit s line (m + roundClocks clkPerBit + 1) =
      received p clkPerBit s line (m + 1) ++
        [(gather (sampled p clkPerBit s line m) 8,
          if 0 < p.parityBits then parityOf (gather (sampled p clkPerBit s line m) 8) ^^
            sampled p clkPerBit s line m 8 else false)] := by
  have here := hears_run pos fits idle low
  have quiet := received_within pos fits idle low (k := roundClocks clkPerBit - 1)
    (by unfold roundClocks; omega)
  rw [show m + 1 + (roundClocks clkPerBit - 1) = m + roundClocks clkPerBit by
    unfold roundClocks; omega] at quiet
  rw [received_succ, quiet, pulse, UartRx.rxDone, here.dataDone, if_pos rfl, here.rxOut,
    UartRx.parityError, here.rxOut]
  by_cases parity : 0 < p.parityBits
  · rw [if_pos parity, if_pos parity, here.parity parity]
  · rw [if_neg parity, if_neg parity]

end Round

end Runs

end RiscvSoc.Peripherals.RxFrame
