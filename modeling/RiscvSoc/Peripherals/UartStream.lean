/- GID: RiscvSoc/Peripherals/UartStream
   generality: G
   utility: main
   digest: The receiver on a stream of frames without gaps, and how far it falls behind. -/

import RiscvSoc.Peripherals.RxFrame

set_option autoImplicit false
set_option relaxedAutoImplicit false

namespace RiscvSoc.Peripherals.UartStream

open RiscvSoc.Clocked.Trajectory
open RiscvSoc.Memory.ByteLanes
open RiscvSoc.Peripherals.Uart
open RiscvSoc.Peripherals.RxFrame

section Line

/-- `UART_RX` for eight data bits, no parity and one stop bit. -/
def eightNoneOne (clkBits : ℕ) : UartParams where
  clkBits
  parityBits := 0
  stopBits := 1

def frameBit (b : Byte) (j : ℕ) : Bool :=
  if j = 0 then false else if j ≤ 8 then b.getLsbD (j - 1) else true

/-- Bit `y` of a stream of frames of ten bits; an idle line after the last one. -/
def streamBit (bs : List Byte) (y : ℕ) : Bool :=
  match bs[y / 10]? with
  | some b => frameBit b (y % 10)
  | none => true

/-- The line of a sender that starts in clock `start` and leaves no gap. -/
def streamLine (clkPerBit start : ℕ) (bs : List Byte) (n : ℕ) : Bool :=
  if n < start then true else streamBit bs ((n - start) / clkPerBit)

variable {clkPerBit start : ℕ} {bs : List Byte}

private theorem streamBit_frame {k j : ℕ} (inside : k < bs.length) (bit : j < 10) :
    streamBit bs (10 * k + j) = frameBit bs[k] j := by
  have frame : (10 * k + j) / 10 = k := by omega
  have index : (10 * k + j) % 10 = j := by omega
  rw [streamBit, frame, index, List.getElem?_eq_getElem inside]

private theorem streamBit_after {y : ℕ} (after : 10 * bs.length ≤ y) : streamBit bs y = true := by
  have none : bs[y / 10]? = none := List.getElem?_eq_none (by omega)
  rw [streamBit, none]

private theorem streamLine_bit (pos : 0 < clkPerBit) {y r : ℕ} (inside : r < clkPerBit) :
    streamLine clkPerBit start bs (start + clkPerBit * y + r) = streamBit bs y := by
  have bit : (start + clkPerBit * y + r - start) / clkPerBit = y := by
    rw [show start + clkPerBit * y + r - start = clkPerBit * y + r by omega,
      Nat.mul_add_div pos, Nat.div_eq_of_lt inside, Nat.add_zero]
  rw [streamLine, if_neg (by omega), bit]

private theorem streamLine_before {n : ℕ} (before : n < start) :
    streamLine clkPerBit start bs n = true :=
  if_pos before

private theorem streamLine_after (pos : 0 < clkPerBit) {n : ℕ}
    (after : start + clkPerBit * (10 * bs.length) ≤ n) :
    streamLine clkPerBit start bs n = true := by
  rw [streamLine, if_neg (by omega)]
  apply streamBit_after
  rw [Nat.le_div_iff_mul_le pos, Nat.mul_comm]
  omega

end Line

section Rounds

/-- What a round takes beyond ten bits. -/
def lag (clkPerBit : ℕ) : ℕ := 3 + 2 * halfBit clkPerBit - clkPerBit

private theorem roundClocks_eq {clkPerBit : ℕ} (pos : 0 < clkPerBit) :
    roundClocks clkPerBit = 10 * clkPerBit + lag clkPerBit := by
  unfold roundClocks lag halfBit
  omega

def shifted (b : Byte) : Byte := gather (fun j => frameBit b (j + 2)) 8

private theorem shifted_eq_iff (b : Byte) : shifted b = b ↔ b = 0xFF := by
  constructor
  · intro eq
    rw [shifted, gather_eq_iff] at eq
    -- the stop bit is sampled as bit 7, bit 7 as bit 6, and so on
    have ones : ∀ m < 8, b.getLsbD (7 - m) = true := by
      intro m inside
      induction m with
      | zero => exact (eq 7 (by omega)).symm
      | succ m ih =>
        rw [← ih (by omega), ← eq (7 - (m + 1)) (by omega), frameBit, if_neg (by omega),
          if_pos (by omega), show 7 - (m + 1) + 2 - 1 = 7 - m by omega]
    apply BitVec.eq_of_getLsbD_eq
    intro j inside
    rw [show (0xFF : Byte) = BitVec.allOnes 8 from rfl, BitVec.getLsbD_allOnes,
      show j = 7 - (7 - j) by omega, ones (7 - j) (by omega), eq_comm, decide_eq_true_eq]
    omega
  · rintro rfl
    decide

variable {clkBits clkPerBit start : ℕ} {bs : List Byte} {s : UartRx}

abbrev streamRun (clkBits clkPerBit : ℕ) (s : UartRx) (start : ℕ) (bs : List Byte) : ℕ → UartRx :=
  run (eightNoneOne clkBits) clkPerBit s (streamLine clkPerBit start bs)

/-- The bytes delivered before clock `n`. -/
def bytes (clkBits clkPerBit : ℕ) (s : UartRx) (start : ℕ) (bs : List Byte) (n : ℕ) : List Byte :=
  (received (eightNoneOne clkBits) clkPerBit s (streamLine clkPerBit start bs) n).map Prod.fst

private theorem regIn_bit (pos : 0 < clkPerBit) {y r : ℕ} (inside : r < clkPerBit) :
    (streamRun clkBits clkPerBit s start bs (start + 2 + clkPerBit * y + r)).regIn =
      streamBit bs y := by
  rw [show start + 2 + clkPerBit * y + r = start + clkPerBit * y + r + 2 by omega, regIn_run,
    streamLine_bit pos inside]

/-- The sample points of a frame whose start bit is seen `delta` clocks late: in the bit they are
meant for, or in the next one. -/
private theorem sampled_bit (pos : 0 < clkPerBit) {y delta : ℕ} (inside : delta < clkPerBit)
    (i : ℕ) :
    sampled (eightNoneOne clkBits) clkPerBit s (streamLine clkPerBit start bs)
        (start + 2 + clkPerBit * y + delta) i =
      streamBit bs (y + (i + 1) +
        if delta + halfBit clkPerBit + 1 < clkPerBit then 0 else 1) := by
  have half : halfBit clkPerBit < clkPerBit := by unfold halfBit; omega
  rw [sampled]
  by_cases near : delta + halfBit clkPerBit + 1 < clkPerBit
  · rw [if_pos near, show start + 2 + clkPerBit * y + delta + 1 + halfBit clkPerBit +
      clkPerBit * (i + 1) =
        start + 2 + clkPerBit * (y + (i + 1)) + (delta + halfBit clkPerBit + 1) by ring]
    exact regIn_bit pos near
  · obtain ⟨r, past⟩ := Nat.exists_eq_add_of_le (Nat.not_lt.mp near)
    have next : clkPerBit * (y + (i + 1) + 1) =
        clkPerBit * y + clkPerBit * (i + 1) + clkPerBit := by ring
    rw [if_neg near, show start + 2 + clkPerBit * y + delta + 1 + halfBit clkPerBit +
      clkPerBit * (i + 1) = start + 2 + clkPerBit * (y + (i + 1) + 1) + r by omega]
    exact regIn_bit pos (by omega)

end Rounds

section Stream

variable {clkBits clkPerBit start : ℕ} {bs : List Byte} {s : UartRx}

/-- The receiver is idle in clock `n`, after `k` of the bytes. -/
structure Waits (clkBits clkPerBit : ℕ) (s : UartRx) (start : ℕ) (bs : List Byte) (n k : ℕ) :
    Prop where
  idle : (streamRun clkBits clkPerBit s start bs n).state = .idle
  count : (bytes clkBits clkPerBit s start bs (n + 1)).length = k

/-- The clock in which bit `y` of the stream gets through the synchronizer. -/
def bitClock (clkPerBit start y : ℕ) : ℕ := start + 2 + clkPerBit * y

private theorem bytes_mono {m n : ℕ} (le : m ≤ n) :
    bytes clkBits clkPerBit s start bs m <+: bytes clkBits clkPerBit s start bs n :=
  (emitted_mono le).map Prod.fst

private theorem waits_high {n k j : ℕ} (here : Waits clkBits clkPerBit s start bs n k)
    (high : ∀ x, n ≤ x → x < n + j → (streamRun clkBits clkPerBit s start bs x).regIn = true) :
    Waits clkBits clkPerBit s start bs (n + j) k := by
  have quiet := received_high here.idle high
  rw [show n + 1 + j = n + j + 1 by omega] at quiet
  have same : bytes clkBits clkPerBit s start bs (n + j + 1) =
      bytes clkBits clkPerBit s start bs (n + 1) := congrArg (List.map Prod.fst) quiet
  exact ⟨(idle_high here.idle high).1, by rw [same, here.count]⟩

private theorem waits_round (pos : 0 < clkPerBit) (fits : clkPerBit < 2 ^ clkBits) {n k : ℕ}
    (here : Waits clkBits clkPerBit s start bs n k)
    (low : (streamRun clkBits clkPerBit s start bs n).regIn = false) :
    Waits clkBits clkPerBit s start bs (n + roundClocks clkPerBit) (k + 1) ∧
      bytes clkBits clkPerBit s start bs (n + roundClocks clkPerBit + 1) =
        bytes clkBits clkPerBit s start bs (n + 1) ++
          [gather (sampled (eightNoneOne clkBits) clkPerBit s (streamLine clkPerBit start bs) n)
            8] := by
  have hears := hears_run pos fits here.idle low
  have round := received_round pos fits here.idle low
  have log : bytes clkBits clkPerBit s start bs (n + roundClocks clkPerBit + 1) =
      bytes clkBits clkPerBit s start bs (n + 1) ++
        [gather (sampled (eightNoneOne clkBits) clkPerBit s (streamLine clkPerBit start bs) n)
          8] := by
    rw [bytes, round, List.map_append, List.map_singleton, bytes]
  refine ⟨⟨hears.state, ?_⟩, log⟩
  rw [log, List.length_append, here.count, List.length_singleton]

/-- The receiver finds the start bit of byte `k` with this delay: it delivers the byte as its
sample points see it, and is back at the same place of the next frame, `lag` clocks later. -/
private theorem waits_next (pos : 0 < clkPerBit) (fits : clkPerBit < 2 ^ clkBits) {k delta : ℕ}
    (inside : k < bs.length) (seen : delta < clkPerBit)
    (here : Waits clkBits clkPerBit s start bs (bitClock clkPerBit start (10 * k) + delta) k) :
    Waits clkBits clkPerBit s start bs
        (bitClock clkPerBit start (10 * (k + 1)) + (delta + lag clkPerBit)) (k + 1) ∧
      bytes clkBits clkPerBit s start bs
          (bitClock clkPerBit start (10 * (k + 1)) + (delta + lag clkPerBit) + 1) =
        bytes clkBits clkPerBit s start bs (bitClock clkPerBit start (10 * k) + delta + 1) ++
          [if delta + halfBit clkPerBit + 1 < clkPerBit then bs[k] else shifted bs[k]] := by
  have startBit : streamBit bs (10 * k) = false := by
    have bit := streamBit_frame inside (j := 0) (by omega)
    simpa [frameBit] using bit
  have low : (streamRun clkBits clkPerBit s start bs
      (bitClock clkPerBit start (10 * k) + delta)).regIn = false :=
    (regIn_bit pos seen).trans startBit
  have clock : bitClock clkPerBit start (10 * k) + delta + roundClocks clkPerBit =
      bitClock clkPerBit start (10 * (k + 1)) + (delta + lag clkPerBit) := by
    rw [roundClocks_eq pos, bitClock, bitClock, show clkPerBit * (10 * (k + 1)) =
      clkPerBit * (10 * k) + 10 * clkPerBit by ring]
    omega
  obtain ⟨next, log⟩ := waits_round pos fits here low
  rw [clock] at next log
  have byte : gather (sampled (eightNoneOne clkBits) clkPerBit s (streamLine clkPerBit start bs)
        (bitClock clkPerBit start (10 * k) + delta)) 8 =
      if delta + halfBit clkPerBit + 1 < clkPerBit then bs[k] else shifted bs[k] := by
    by_cases near : delta + halfBit clkPerBit + 1 < clkPerBit
    · rw [if_pos near, gather_eq_iff]
      intro j bit
      rw [bitClock, sampled_bit pos seen, if_pos near, Nat.add_zero,
        streamBit_frame inside (by omega), frameBit, if_neg (by omega), if_pos (by omega),
        Nat.add_sub_cancel]
    · rw [if_neg near, gather_eq_iff]
      intro j bit
      rw [bitClock, sampled_bit pos seen, if_neg near, Nat.add_assoc (10 * k),
        streamBit_frame inside (by omega), shifted, getLsbD_gather _ _ _ bit]
      simp [bit]
  exact ⟨next, log.trans (by rw [byte])⟩

/-- All bytes of the stream are delivered, each once, and nothing else is. -/
def Delivers (clkBits clkPerBit : ℕ) (s : UartRx) (start : ℕ) (bs : List Byte) : Prop :=
  ∃ m, ∀ n, m ≤ n → bytes clkBits clkPerBit s start bs n = bs

private theorem prefix_of_delivers (delivers : Delivers clkBits clkPerBit s start bs) (n : ℕ) :
    bytes clkBits clkPerBit s start bs n <+: bs := by
  obtain ⟨m, all⟩ := delivers
  have upto : bytes clkBits clkPerBit s start bs n <+:
      bytes clkBits clkPerBit s start bs (max m n) := bytes_mono (le_max_right m n)
  rwa [all _ (le_max_left m n)] at upto

private theorem bytes_high {n : ℕ} (idle : (streamRun clkBits clkPerBit s start bs n).state = .idle)
    (high : ∀ j, n ≤ j → (streamRun clkBits clkPerBit s start bs j).regIn = true) (m : ℕ)
    (later : n < m) :
    bytes clkBits clkPerBit s start bs m = bytes clkBits clkPerBit s start bs (n + 1) := by
  obtain ⟨j, rfl⟩ := Nat.exists_eq_add_of_lt later
  have quiet := received_high (k := j) idle fun x lo _ => high x lo
  rw [show n + j + 1 = n + 1 + j by omega]
  exact congrArg (List.map Prod.fst) quiet

/-- A receiver that has missed the start bit of its next byte in the last frame cannot make the
byte up from what is left of the frame: its last low bit has no counterpart. -/
private theorem last_frame_lost (pos : 0 < clkPerBit) {k y delta : ℕ} (inside : k < bs.length)
    (last : k + 1 = bs.length) (missed : 10 * k + 1 ≤ y) (seen : delta < clkPerBit)
    (low : streamBit bs y = false) :
    gather (sampled (eightNoneOne clkBits) clkPerBit s (streamLine clkPerBit start bs)
      (start + 2 + clkPerBit * y + delta)) 8 ≠ bs[k] := by
  intro same
  rw [gather_eq_iff] at same
  have frame : y < 10 * (k + 1) := by
    by_contra beyond
    rw [streamBit_after (by omega)] at low
    exact absurd low (by simp)
  obtain ⟨q, rfl⟩ := Nat.exists_eq_add_of_le (Nat.le_of_succ_le missed)
  rw [streamBit_frame inside (by omega), frameBit, if_neg (by omega)] at low
  have data : q ≤ 8 := by
    by_contra stop
    rw [if_neg stop] at low
    exact absurd low (by simp)
  rw [if_pos data] at low
  -- no bit from `q - 1` on is low, by induction from the last one down
  have high : ∀ m j, j + m = 7 → q - 1 ≤ j → bs[k].getLsbD j = true := by
    intro m
    induction m using Nat.strong_induction_on with
    | _ m ih =>
      intro j bit after
      rw [← same j (by omega), sampled_bit pos seen]
      generalize (if delta + halfBit clkPerBit + 1 < clkPerBit then 0 else 1) = next
      by_cases stop : q + (j + 1) + next < 10
      · rw [Nat.add_assoc, Nat.add_assoc, ← Nat.add_assoc q, streamBit_frame inside stop, frameBit,
          if_neg (by omega)]
        by_cases more : q + (j + 1) + next ≤ 8
        · rw [if_pos more]
          exact ih (7 - (q + (j + 1) + next - 1)) (by omega) _ (by omega) (by omega)
        · rw [if_neg more]
      · exact streamBit_after (by omega)
  rw [high (7 - (q - 1)) (q - 1) (by omega) le_rfl] at low
  exact absurd low (by simp)

private theorem regIn_before (rest : Resting s) {n : ℕ} (before : n < start + 2) :
    (streamRun clkBits clkPerBit s start bs n).regIn = true := by
  apply regIn_resting rest
  intro j inside
  exact streamLine_before (by omega)

private theorem regIn_after (pos : 0 < clkPerBit) {n : ℕ}
    (after : bitClock clkPerBit start (10 * bs.length) ≤ n) :
    (streamRun clkBits clkPerBit s start bs n).regIn = true := by
  unfold bitClock at after
  obtain ⟨j, rfl⟩ := Nat.exists_eq_add_of_le' (show 2 ≤ n by omega)
  rw [regIn_run, streamLine_after pos (by omega)]

private theorem getElem_of_prefix {l : List Byte} {b : Byte} {k : ℕ} (upto : l ++ [b] <+: bs)
    (count : l.length = k) (inside : k < bs.length) : bs[k] = b := by
  obtain ⟨rest, rfl⟩ := upto
  subst count
  simp

private theorem late_lost (pos : 0 < clkPerBit) (fits : clkPerBit < 2 ^ clkBits) {n k : ℕ}
    (here : Waits clkBits clkPerBit s start bs n k) (left : k < bs.length)
    (late : bitClock clkPerBit start (10 * k + 1) ≤ n) :
    ¬Delivers clkBits clkPerBit s start bs := by
  intro delivers
  by_cases again : ∃ m, n ≤ m ∧ (streamRun clkBits clkPerBit s start bs m).regIn = false
  · classical
    obtain ⟨after, low⟩ := Nat.find_spec again
    obtain ⟨j, found⟩ := Nat.exists_eq_add_of_le after
    rw [found] at low
    have high : ∀ x, n ≤ x → x < n + j →
        (streamRun clkBits clkPerBit s start bs x).regIn = true := by
      intro x lo hi
      by_contra other
      have least := Nat.find_min' again ⟨lo, Bool.eq_false_iff.mpr other⟩
      omega
    have later := waits_high here high
    obtain ⟨next, log⟩ := waits_round pos fits later low
    by_cases more : k + 1 < bs.length
    · refine late_lost pos fits next more ?_ delivers
      rw [roundClocks_eq pos]
      unfold bitClock at late ⊢
      rw [show clkPerBit * (10 * (k + 1) + 1) = clkPerBit * (10 * k + 1) + 10 * clkPerBit by ring]
      omega
    · have last : k + 1 = bs.length := by omega
      have upto := prefix_of_delivers delivers (n + j + roundClocks clkPerBit + 1)
      rw [log] at upto
      obtain ⟨y, delta, seen, clock⟩ : ∃ y delta, delta < clkPerBit ∧
          n + j = start + 2 + clkPerBit * y + delta := by
        refine ⟨(n + j - (start + 2)) / clkPerBit, (n + j - (start + 2)) % clkPerBit,
          Nat.mod_lt _ pos, ?_⟩
        have split := Nat.div_add_mod (n + j - (start + 2)) clkPerBit
        unfold bitClock at late
        omega
      have missed : 10 * k + 1 ≤ y := by
        unfold bitClock at late
        have reach : clkPerBit * (10 * k + 1) < clkPerBit * (y + 1) := by
          rw [Nat.mul_add clkPerBit y 1]; omega
        exact Nat.le_of_lt_succ (Nat.lt_of_mul_lt_mul_left reach)
      have byte := getElem_of_prefix upto later.count left
      rw [clock] at byte low
      rw [regIn_bit pos seen] at low
      exact last_frame_lost pos left last missed seen low byte.symm
  · have high : ∀ x, n ≤ x → (streamRun clkBits clkPerBit s start bs x).regIn = true := by
      intro x lo
      by_contra other
      exact again ⟨x, lo, Bool.eq_false_iff.mpr other⟩
    obtain ⟨m, all⟩ := delivers
    have still := bytes_high here.idle high (max m (n + 1)) (by omega)
    rw [all _ (le_max_left _ _)] at still
    have count := here.count
    rw [← still] at count
    omega
termination_by bs.length - k

/-- Byte `k` finds the receiver, which has fallen behind by `k` lags, in time: before its first
sample point has left the bit it belongs to, or, for a byte of eight ones, in the start bit. -/
def InTime (clkPerBit k : ℕ) (b : Byte) : Prop :=
  k * lag clkPerBit + halfBit clkPerBit + 1 < clkPerBit ∨ b = 0xFF ∧ k * lag clkPerBit < clkPerBit

instance (clkPerBit k : ℕ) (b : Byte) : Decidable (InTime clkPerBit k b) :=
  inferInstanceAs (Decidable (_ ∨ _))

private theorem waits_first (rest : Resting s) :
    Waits clkBits clkPerBit s start bs (bitClock clkPerBit start 0) 0 ∧
      bytes clkBits clkPerBit s start bs (bitClock clkPerBit start 0 + 1) = [] := by
  obtain ⟨idle, -, quiet⟩ : (streamRun clkBits clkPerBit s start bs (start + 2)).state = .idle ∧
      _ ∧ received (eightNoneOne clkBits) clkPerBit s (streamLine clkPerBit start bs)
        (start + 2 + 1) = [] := resting_high rest fun j before => regIn_before rest before
  have none : bytes clkBits clkPerBit s start bs (bitClock clkPerBit start 0 + 1) = [] := by
    rw [bitClock, Nat.mul_zero, Nat.add_zero, bytes, quiet]
    rfl
  exact ⟨⟨idle, by rw [none]; rfl⟩, none⟩

private theorem waits_inTime (pos : 0 < clkPerBit) (fits : clkPerBit < 2 ^ clkBits)
    (rest : Resting s)
    (k : ℕ) (upto : k ≤ bs.length)
    (inTime : ∀ j (inside : j < bs.length), j < k → InTime clkPerBit j bs[j]) :
    Waits clkBits clkPerBit s start bs (bitClock clkPerBit start (10 * k) + k * lag clkPerBit) k ∧
      bytes clkBits clkPerBit s start bs
        (bitClock clkPerBit start (10 * k) + k * lag clkPerBit + 1) = bs.take k := by
  induction k with
  | zero => simpa using waits_first rest
  | succ k ih =>
    obtain ⟨here, log⟩ := ih (by omega) fun j inside before => inTime j inside (by omega)
    have now := inTime k upto (by omega)
    have seen : k * lag clkPerBit < clkPerBit := by
      rcases now with early | ⟨-, late⟩
      · omega
      · exact late
    obtain ⟨next, delivered⟩ := waits_next pos fits (by omega) seen here
    have byte : (if k * lag clkPerBit + halfBit clkPerBit + 1 < clkPerBit then bs[k]
        else shifted bs[k]) = bs[k] := by
      split
      · rfl
      · rcases now with early | ⟨ones, -⟩
        · contradiction
        · rw [shifted_eq_iff, ones]
    rw [byte, log] at delivered
    rw [Nat.succ_mul k (lag clkPerBit)]
    refine ⟨next, ?_⟩
    rw [delivered, List.take_succ_eq_append_getElem]

/-- The receiver delivers a stream without gaps exactly as long as its lags do not add up to more
than what is left of a bit after its sample point. A byte of eight ones still gets through after
that, as long as its start bit is seen. -/
theorem delivers_iff_inTime (pos : 0 < clkPerBit) (fits : clkPerBit < 2 ^ clkBits)
    (rest : Resting s) :
    Delivers clkBits clkPerBit s start bs ↔
      ∀ k (inside : k < bs.length), InTime clkPerBit k bs[k] := by
  constructor
  · intro delivers k
    induction k using Nat.strong_induction_on with
    | _ k ih =>
      intro inside
      obtain ⟨here, log⟩ := waits_inTime pos fits rest k inside.le fun j other before =>
        ih j before other
      by_cases seen : k * lag clkPerBit < clkPerBit
      · obtain ⟨-, delivered⟩ := waits_next pos fits inside seen here
        have upto := prefix_of_delivers delivers (bitClock clkPerBit start (10 * (k + 1)) +
          (k * lag clkPerBit + lag clkPerBit) + 1)
        rw [delivered, log] at upto
        have byte := getElem_of_prefix upto (by simp; omega) inside
        by_cases near : k * lag clkPerBit + halfBit clkPerBit + 1 < clkPerBit
        · exact Or.inl near
        · rw [if_neg near] at byte
          exact Or.inr ⟨(shifted_eq_iff _).mp byte.symm, seen⟩
      · refine absurd delivers (late_lost pos fits here inside ?_)
        unfold bitClock
        rw [Nat.mul_add clkPerBit (10 * k) 1]
        omega
  · intro inTime
    obtain ⟨here, log⟩ := waits_inTime pos fits rest bs.length le_rfl
      fun j inside _ => inTime j inside
    refine ⟨bitClock clkPerBit start (10 * bs.length) + bs.length * lag clkPerBit + 1, ?_⟩
    intro n later
    have high : ∀ j, bitClock clkPerBit start (10 * bs.length) + bs.length * lag clkPerBit ≤ j →
        (streamRun clkBits clkPerBit s start bs j).regIn = true := by
      intro j after
      exact regIn_after pos (by omega)
    rw [bytes_high here.idle high n later, log, List.take_length]

/-- The bound on `k` for a byte that is not all ones, at the baud rate of the board: 54 bytes. -/
example : (∀ k < 54, InTime 217 k 0x00) ∧ ¬InTime 217 54 0x00 := by decide

/-- One byte and a second one of eight ones at three clocks a bit. -/
theorem delivers_iff_inTime_ones : Delivers 8 3 idleRx 5 [0x12, 0xFF] :=
  (delivers_iff_inTime (by decide) (by decide) resting_idleRx).mpr (by decide)

/-- Two zero bytes at three clocks a bit: the second one is delivered as `0x80`. -/
theorem delivers_not_always : ¬Delivers 8 3 idleRx 0 [0x00, 0x00] := by
  intro delivers
  have upto := prefix_of_delivers delivers 70
  revert upto
  decide +kernel

end Stream

end RiscvSoc.Peripherals.UartStream
