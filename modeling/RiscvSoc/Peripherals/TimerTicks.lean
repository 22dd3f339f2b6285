/- GID: RiscvSoc/Peripherals/TimerTicks
   generality: G
   utility: main
   digest: When the timer underflows, what its pending bit keeps, and what a RELOAD write sets. -/

import RiscvSoc.Clocked.Countdown
import RiscvSoc.Clocked.Trajectory
import RiscvSoc.Peripherals.Timer

set_option autoImplicit false
set_option relaxedAutoImplicit false

namespace RiscvSoc.Peripherals.TimerTicks

open RiscvSoc.Clocked.Countdown
open RiscvSoc.Clocked.Trajectory
open RiscvSoc.Cpu.Decoder
open RiscvSoc.Peripherals.Timer

/-- The timer before edge `n`. -/
abbrev run (s : TimerRegs) (input : ℕ → TimerIn) : ℕ → TimerRegs :=
  trajectory TimerRegs.posedge s input

/-- The counter underflows on this edge. -/
def underflows (s : TimerRegs) (i : TimerIn) : Bool := !i.rst && s.en && s.count == 0

/-- A write on this edge to the register `reg`. -/
def writesReg (reg : BitVec 2) (i : TimerIn) : Bool :=
  i.sel && i.we && i.addr.extractLsb' 2 2 == reg

/-- A write of 1 to bit 0 of STATUS. -/
def acks (i : TimerIn) : Bool := writesReg 0b10 i && i.wdata.getLsbD 0

variable {s : TimerRegs} {i : TimerIn} {input : ℕ → TimerIn}

section Edge

private theorem pending_written : (s.written i).pending = (s.pending && !acks i) := by
  rw [TimerRegs.written, acks, writesReg]
  cases i.sel && i.we with
  | false => simp
  | true =>
    simp only [TimerRegs.write, Bool.true_and, if_true]
    split_ifs with reload ctrl status bit <;> simp_all

theorem count_written : (s.written i).count = s.count := by
  unfold TimerRegs.written TimerRegs.write
  split_ifs <;> rfl

private theorem en_written : (s.written i).en =
    if writesReg 0b01 i then i.wdata.getLsbD 0 else s.en := by
  rw [TimerRegs.written, writesReg]
  cases i.sel && i.we with
  | false => simp
  | true =>
    simp only [TimerRegs.write, Bool.true_and, if_true]
    split_ifs <;> simp_all

theorem reloadVal_written : (s.written i).reloadVal =
    if writesReg 0b00 i then i.wdata else s.reloadVal := by
  rw [TimerRegs.written, writesReg]
  cases i.sel && i.we with
  | false => simp
  | true =>
    simp only [TimerRegs.write, Bool.true_and, if_true]
    split_ifs <;> simp_all

/-- The three ways of an edge out of reset. -/
theorem posedge_stopped (go : i.rst = false) (stopped : s.en = false) :
    s.posedge i = s.written i := by
  rw [TimerRegs.posedge, go, if_neg Bool.false_ne_true, stopped, if_neg Bool.false_ne_true]

theorem posedge_underflow (go : i.rst = false) (en : s.en = true) (zero : s.count = 0) :
    s.posedge i = { s.written i with count := s.reloadVal, pending := true } := by
  rw [TimerRegs.posedge, go, if_neg Bool.false_ne_true, if_pos en, if_pos zero]

theorem posedge_down (go : i.rst = false) (en : s.en = true) (more : s.count ≠ 0) :
    s.posedge i = { s.written i with count := s.count - 1 } := by
  rw [TimerRegs.posedge, go, if_neg Bool.false_ne_true, if_pos en, if_neg more]

private theorem underflows_iff (go : i.rst = false) (en : s.en = true) :
    underflows s i = true ↔ s.count.toNat = 0 := by
  rw [underflows, go, en, Bool.not_false, Bool.true_and, Bool.true_and, beq_iff_eq,
    ← BitVec.toNat_inj]
  rfl

/-- The underflow comes after the bus write and wins. -/
theorem pending_posedge (go : i.rst = false) :
    (s.posedge i).pending = (underflows s i || s.pending && !acks i) := by
  rw [underflows, go, Bool.not_false, Bool.true_and]
  cases en : s.en with
  | false =>
    rw [posedge_stopped go en, pending_written]
    rfl
  | true =>
    by_cases zero : s.count = 0
    · rw [posedge_underflow go en zero, zero]
      rfl
    · rw [posedge_down go en zero, beq_eq_false_iff_ne.mpr zero]
      exact pending_written

private theorem count_toNat_posedge (go : i.rst = false) (en : s.en = true) :
    (s.posedge i).count.toNat = countNext s.reloadVal.toNat s.count.toNat := by
  by_cases zero : s.count = 0
  · rw [posedge_underflow go en zero, zero]
    rfl
  · have pos : s.count.toNat ≠ 0 := fun same => zero (BitVec.eq_of_toNat_eq same)
    rw [posedge_down go en zero, countNext, if_neg pos]
    change (s.count - 1).toNat = _
    bv_omega

private theorem reloadVal_next (go : i.rst = false) (kept : writesReg 0b00 i = false) :
    (s.posedge i).reloadVal = s.reloadVal := by
  rw [s.reloadVal_posedge go, reloadVal_written, kept, if_neg Bool.false_ne_true]

/-- The countdown leaves EN to the bus as well. -/
theorem en_posedge (go : i.rst = false) : (s.posedge i).en =
    if writesReg 0b01 i then i.wdata.getLsbD 0 else s.en := by
  rw [← en_written]
  cases en : s.en with
  | false => rw [posedge_stopped go en]
  | true =>
    by_cases zero : s.count = 0
    · rw [posedge_underflow go en zero]
    · rw [posedge_down go en zero]

private theorem en_reset (rst : i.rst = true) : (s.posedge i).en = false := by
  simp [TimerRegs.posedge, rst]

end Edge

section Ticks

variable {m t : ℕ} {N : Word}

private theorem go_of_en {k : ℕ} (en : (run s input (k + 1)).en = true) :
    (input k).rst = false := by
  apply Bool.eq_false_iff.mpr
  intro rst
  simp only [trajectory_succ, en_reset rst] at en
  cases en

private theorem count_run (steady : ∀ k, m ≤ k → k ≤ t →
      (run s input k).en = true ∧ (run s input k).reloadVal = N) {k : ℕ} (le : m + k ≤ t) :
    (run s input (m + k)).count.toNat =
      countAfter N.toNat (run s input m).count.toNat k := by
  refine @eq_countAfter N.toNat (fun k => (run s input k).count.toNat) m t ?_ k le
  intro j lo hi
  obtain ⟨en, reload⟩ := steady j lo (by omega)
  rw [← reload]
  exact count_toNat_posedge (go_of_en (steady (j + 1) (by omega) (by omega)).1) en

/-- From an underflow on, while the timer stays enabled and RELOAD stays N, it underflows exactly
every N + 1 clocks; an underflow leaves `pending` set whatever the bus writes on its edge, and
`pending` falls on a write of 1 to STATUS only. -/
theorem timer_ticks_exactly (s : TimerRegs) (input : ℕ → TimerIn) {m t : ℕ} {N : Word}
    (first : underflows (run s input m) (input m) = true)
    (steady : ∀ k, m ≤ k → k ≤ t →
      (run s input k).en = true ∧ (run s input k).reloadVal = N) :
    ∀ k, m ≤ k → k < t →
      (underflows (run s input k) (input k) = true ↔ (k - m) % (N.toNat + 1) = 0) ∧
      (underflows (run s input k) (input k) = true → (run s input (k + 1)).pending = true) ∧
      ((run s input k).pending = true → (run s input (k + 1)).pending = false →
        acks (input k) = true) := by
  intro k lo hi
  obtain ⟨j, rfl⟩ : ∃ j, k = m + j := ⟨k - m, by omega⟩
  have go : ∀ n, m ≤ n → n < t → (input n).rst = false := fun n lo hi =>
    go_of_en (steady (n + 1) (by omega) (by omega)).1
  have zero : (run s input m).count.toNat = 0 :=
    (underflows_iff (go m le_rfl (by omega)) (steady m le_rfl (by omega)).1).mp first
  have next : (run s input (m + j + 1)).pending = _ := pending_posedge (go (m + j) lo hi)
  refine ⟨?_, ?_, ?_⟩
  · rw [underflows_iff (go _ lo hi) (steady _ lo (by omega)).1, count_run steady (by omega), zero,
      countAfter_eq_zero, Nat.sub_zero, Nat.add_sub_cancel_left]
    simp
  · intro under
    rw [next, under, Bool.true_or]
  · intro pending falls
    rw [next, pending, Bool.true_and, Bool.or_eq_false_iff] at falls
    simpa using falls.2

/-- A write of RELOAD = 2, then EN, then writes of 1 to STATUS all the time. -/
def acking : ℕ → TimerIn
  | 0 => { rst := false, sel := true, addr := 0x0, wdata := 2, we := true, re := false }
  | 1 => { rst := false, sel := true, addr := 0x4, wdata := 1, we := true, re := false }
  | _ + 2 => { rst := false, sel := true, addr := 0x8, wdata := 1, we := true, re := false }

/-- An acknowledge on the edge of the underflow in clock 5 does not lose it. -/
theorem timer_ticks_exactly_acking : (run {} acking 6).pending = true :=
  (timer_ticks_exactly {} acking (by decide : underflows (run {} acking 2) (acking 2) = true)
    (by
      intro k lo hi
      have cases : k = 2 ∨ k = 3 ∨ k = 4 ∨ k = 5 ∨ k = 6 := by omega
      rcases cases with rfl | rfl | rfl | rfl | rfl <;> exact ⟨by decide, by decide⟩ :
      ∀ k, 2 ≤ k → k ≤ 6 → (run {} acking k).en = true ∧ (run {} acking k).reloadVal = 2)
    5 (by decide) (by decide)).2.1 (by decide)

end Ticks

section Acknowledge

variable {p k : ℕ}

/-- The timer acknowledges on each of the edges `p` to `p + k - 1`. -/
def Held (input : ℕ → TimerIn) (p k : ℕ) : Prop :=
  ∀ j < k, (input (p + j)).rst = false ∧ acks (input (p + j)) = true

/-- Of `k` edges from here on none underflows, or the last one does: the counter is stopped, its
next underflow lies behind them, or it falls on the last of them. -/
def Spared (s : TimerRegs) (k : ℕ) : Prop :=
  s.en = false ∨ k ≤ s.count.toNat ∨ (k - 1 - s.count.toNat) % (s.reloadVal.toNat + 1) = 0

private theorem kept_of_acks (ack : acks i = true) :
    writesReg 0b00 i = false ∧ writesReg 0b01 i = false := by
  simp only [acks, writesReg, Bool.and_eq_true, beq_iff_eq] at ack ⊢
  simp [ack.1.2]

private theorem steady_held (held : Held input p k) {j : ℕ} (le : j ≤ k) :
    (run s input (p + j)).en = (run s input p).en ∧
      (run s input (p + j)).reloadVal = (run s input p).reloadVal := by
  induction j with
  | zero => exact ⟨rfl, rfl⟩
  | succ j ih =>
    obtain ⟨go, ack⟩ := held j (by omega)
    obtain ⟨reload, ctrl⟩ := kept_of_acks ack
    have en : (run s input (p + j + 1)).en = _ := en_posedge go
    have value : (run s input (p + j + 1)).reloadVal = _ := reloadVal_next go reload
    rw [← Nat.add_assoc, en, value, ctrl, if_neg Bool.false_ne_true]
    exact ih (by omega)

private theorem pending_held (held : Held input p (k + 1)) :
    (run s input (p + k + 1)).pending = underflows (run s input (p + k)) (input (p + k)) := by
  obtain ⟨go, ack⟩ := held k (by omega)
  have next : (run s input (p + k + 1)).pending = _ := pending_posedge go
  rw [next, ack, Bool.not_true, Bool.and_false, Bool.or_false]

private theorem underflows_held (held : Held input p k) (en : (run s input p).en = true) {j : ℕ}
    (lt : j < k) :
    underflows (run s input (p + j)) (input (p + j)) = true ↔
      (run s input p).count.toNat ≤ j ∧
        (j - (run s input p).count.toNat) % ((run s input p).reloadVal.toNat + 1) = 0 := by
  have steady : ∀ n, p ≤ n → n ≤ p + k → (run s input n).en = true ∧
      (run s input n).reloadVal = (run s input p).reloadVal := by
    intro n lo hi
    obtain ⟨d, rfl⟩ : ∃ d, n = p + d := ⟨n - p, by omega⟩
    obtain ⟨same, value⟩ := @steady_held s input p k held d (by omega)
    exact ⟨same.trans en, value⟩
  rw [underflows_iff (held j lt).1 (steady _ (by omega) (by omega)).1,
    count_run steady (by omega), countAfter_eq_zero]

/-- No underflow is lost to an acknowledge held for `k` edges exactly when the edges are spared. -/
theorem held_keeps_iff (held : Held input p k) (pos : 1 ≤ k) :
    (∀ j < k, underflows (run s input (p + j)) (input (p + j)) = true →
        (run s input (p + k)).pending = true) ↔
      Spared (run s input p) k := by
  obtain ⟨d, rfl⟩ : ∃ d, k = d + 1 := ⟨k - 1, by omega⟩
  rw [← Nat.add_assoc, pending_held held, Spared, Nat.add_sub_cancel]
  cases en : (run s input p).en with
  | false =>
    refine ⟨fun _ => .inl rfl, fun _ j lt under => ?_⟩
    rw [underflows, (steady_held held (Nat.le_of_lt lt)).1, en, Bool.and_false,
      Bool.false_and] at under
    cases under
  | true =>
    have at_edge := fun j (lt : j < d + 1) => underflows_held held en lt
    rw [at_edge d (by omega)]
    constructor
    · intro keeps
      rcases Nat.lt_or_ge (run s input p).count.toNat (d + 1) with inside | behind
      · have here := (at_edge _ inside).mpr ⟨le_rfl, by rw [Nat.sub_self, Nat.zero_mod]⟩
        exact .inr (.inr (keeps _ inside here).2)
      · exact .inr (.inl behind)
    · intro spared j lt under
      have passed := ((at_edge j lt).mp under).1
      rcases spared with off | behind | last
      · cases off
      · omega
      · exact ⟨by omega, last⟩

end Acknowledge

section Reload

variable {m : ℕ} {N : Word}

/-- Edge 0 writes RELOAD = N. The timer is stopped for the `m` clocks behind it, enabled from then
on for as long as a count from N takes, and RELOAD is not written again. -/
structure Programs (s : TimerRegs) (input : ℕ → TimerIn) (m : ℕ) (N : Word) : Prop where
  go : ∀ k ≤ m + 1 + N.toNat, (input k).rst = false
  reload : writesReg 0b00 (input 0) = true ∧ (input 0).wdata = N
  kept : ∀ k, 1 ≤ k → k ≤ m + 1 + N.toNat → writesReg 0b00 (input k) = false
  stopped : ∀ k, 1 ≤ k → k ≤ m → (run s input k).en = false
  running : ∀ k, m < k → k ≤ m + 1 + N.toNat → (run s input k).en = true

/-- Clock `t` is the first one behind edge 0 in which the counter underflows. -/
def FirstUnderflowAt (s : TimerRegs) (input : ℕ → TimerIn) (t : ℕ) : Prop :=
  (∀ k, 1 ≤ k → k < t → underflows (run s input k) (input k) = false) ∧
    underflows (run s input t) (input t) = true

private theorem en_reloaded (go : i.rst = false) (reload : writesReg 0b00 i = true) :
    (s.posedge i).en = s.en := by
  have other : writesReg 0b01 i = false := by
    simp only [writesReg, Bool.and_eq_true, beq_iff_eq] at reload ⊢
    simp [reload.2]
  rw [en_posedge go, other, if_neg Bool.false_ne_true]

private theorem count_stopped (go : i.rst = false) (stopped : s.en = false) :
    (s.posedge i).count = s.count := by
  rw [posedge_stopped go stopped, count_written]

namespace Programs

variable (programs : Programs s input m N)

include programs

private theorem reloadVal {k : ℕ} (pos : 1 ≤ k) (le : k ≤ m + 1 + N.toNat) :
    (run s input k).reloadVal = N := by
  induction k, pos using Nat.le_induction with
  | base =>
    have write : (run s input 1).reloadVal = _ := s.reloadVal_posedge (programs.go 0 (by omega))
    rw [write, reloadVal_written, if_pos programs.reload.1, programs.reload.2]
  | succ k pos ih =>
    have step : (run s input (k + 1)).reloadVal = _ :=
      reloadVal_next (programs.go k (by omega)) (programs.kept k pos (by omega))
    rw [step, ih (by omega)]

private theorem count_first {k : ℕ} (pos : 1 ≤ k) (le : k ≤ m + 1) :
    (run s input k).count = (run s input 1).count := by
  induction k, pos using Nat.le_induction with
  | base => rfl
  | succ k pos ih =>
    have step : (run s input (k + 1)).count = _ :=
      count_stopped (programs.go k (by omega)) (programs.stopped k pos (by omega))
    rw [step, ih (by omega)]

private theorem count_running {j : ℕ} (le : j ≤ N.toNat) :
    (run s input (m + 1 + j)).count.toNat =
      countAfter N.toNat (run s input 1).count.toNat j := by
  rw [← programs.count_first (show 1 ≤ m + 1 by omega) le_rfl]
  refine @count_run s input (m + 1) (m + 1 + N.toNat) N ?_ j (by omega)
  intro k lo hi
  exact ⟨programs.running k (by omega) hi, programs.reloadVal (by omega) hi⟩

private theorem underflows_running {j : ℕ} (le : j ≤ N.toNat) :
    underflows (run s input (m + 1 + j)) (input (m + 1 + j)) = true ↔
      (run s input 1).count.toNat = j := by
  rw [underflows_iff (programs.go _ (by omega)) (programs.running _ (by omega) (by omega)),
    programs.count_running le, countAfter_eq_zero]
  constructor
  · rintro ⟨passed, round⟩
    rw [Nat.mod_eq_of_lt (by omega)] at round
    omega
  · rintro rfl
    simp

private theorem firstUnderflowAt_iff :
    FirstUnderflowAt s input (m + 1 + N.toNat) ↔ (run s input 1).count.toNat = N.toNat := by
  rw [← programs.underflows_running le_rfl]
  refine ⟨And.right, fun last => ⟨fun k pos before => ?_, last⟩⟩
  rcases Nat.lt_or_ge m k with enabled | disabled
  · obtain ⟨j, rfl⟩ : ∃ j, k = m + 1 + j := ⟨k - (m + 1), by omega⟩
    apply Bool.eq_false_iff.mpr
    intro earlier
    have here := (programs.underflows_running (by omega)).mp earlier
    have there := (programs.underflows_running le_rfl).mp last
    omega
  · rw [underflows, programs.stopped k pos disabled, Bool.and_false, Bool.false_and]

end Programs

/-- The count already stands where a count from N would: at N while the timer is stopped, one step
before N while it runs. -/
def CountReady (s : TimerRegs) (N : Word) : Prop :=
  s.en = false ∧ s.count = N ∨
    s.en = true ∧ (s.count = 0 ∧ s.reloadVal = N ∨ s.count.toNat = N.toNat + 1)

private theorem count_ready_iff (go : i.rst = false) :
    (s.posedge i).count.toNat = N.toNat ↔ CountReady s N := by
  cases en : s.en with
  | false =>
    rw [count_stopped go en, BitVec.toNat_inj, CountReady, en]
    simp
  | true =>
    rw [count_toNat_posedge go en, countNext, CountReady, en]
    by_cases zero : s.count = 0
    · have none : s.count.toNat = 0 := by rw [zero]; rfl
      rw [if_pos none, none, BitVec.toNat_inj]
      simp [zero]
    · have pos : s.count.toNat ≠ 0 := fun same => zero (BitVec.eq_of_toNat_eq same)
      rw [if_neg pos]
      simp only [zero, false_and, false_or, Bool.true_eq_false, true_and]
      omega

/-- A RELOAD write does not touch the count: the first underflow behind it comes N + 1 enabled
clocks later exactly when the count stands ready by itself. -/
theorem reload_sets_count_iff (s : TimerRegs) (input : ℕ → TimerIn) (m : ℕ) (N : Word)
    (programs : Programs s input m N) :
    FirstUnderflowAt s input (m + 1 + N.toNat) ↔ CountReady s N := by
  rw [programs.firstUnderflowAt_iff]
  exact count_ready_iff (programs.go 0 (by omega))

def programming (N : Word) : ℕ → TimerIn
  | 0 => { rst := false, sel := true, addr := 0x0, wdata := N, we := true, re := false }
  | 1 => { rst := false, sel := true, addr := 0x4, wdata := 1, we := true, re := false }
  | _ + 2 => { rst := false, sel := false, addr := 0, wdata := 0, we := false, re := false }

private theorem reload_programming (N : Word) : writesReg 0b00 (programming N 0) = true := by
  simp [writesReg, programming]

private theorem enabled_programming (s : TimerRegs) (N : Word) :
    ∀ k, 2 ≤ k → (run s (programming N) k).en = true := by
  intro k le
  induction k, le using Nat.le_induction with
  | base =>
    have enable : writesReg 0b01 (programming N 1) = true := by simp [writesReg, programming]
    have step : (run s (programming N) 2).en = _ := en_posedge rfl
    rw [step, if_pos enable]
    exact (by decide : (1 : Word).getLsbD 0 = true)
  | succ k le ih =>
    obtain ⟨j, rfl⟩ : ∃ j, k = j + 2 := ⟨k - 2, by omega⟩
    have step : (run s (programming N) (j + 2 + 1)).en = _ := en_posedge rfl
    rw [step]
    exact ih

private theorem programs_programming (N : Word) (stopped : s.en = false) :
    Programs s (programming N) 1 N where
  go k _ := by
    match k with
    | 0 | 1 | _ + 2 => rfl
  reload := ⟨reload_programming N, rfl⟩
  kept k pos _ := by
    match k with
    | 1 => simp [writesReg, programming]
    | _ + 2 => rfl
  stopped k pos le := by
    obtain rfl : k = 1 := by omega
    have step : (run s (programming N) 1).en = s.en :=
      en_reloaded rfl (reload_programming N)
    exact step.trans stopped
  running k lo _ := enabled_programming s N k lo

/-- A timer that stopped at 100 is programmed with 100. -/
theorem reload_sets_count_stopped : FirstUnderflowAt { count := 100 } (programming 100) 102 :=
  (reload_sets_count_iff { count := 100 } (programming 100) 1 100
    (programs_programming 100 rfl)).mpr (.inl ⟨rfl, rfl⟩)

/-- After reset the first underflow comes in the first enabled clock. -/
theorem reload_sets_no_count :
    Programs {} (programming 100) 1 100 ∧ ¬FirstUnderflowAt {} (programming 100) 102 := by
  refine ⟨programs_programming 100 rfl, fun first => ?_⟩
  have early := first.1 2 (by decide) (by decide)
  exact absurd early (by decide)

end Reload

end RiscvSoc.Peripherals.TimerTicks
