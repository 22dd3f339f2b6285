/- GID: RiscvSoc/Peripherals/VgaRaster
   generality: G
   utility: support
   digest: The timing generator of the framebuffer on its own: its frames, and where each one is. -/

import RiscvSoc.Clocked.Recurrence
import RiscvSoc.Clocked.Trajectory
import RiscvSoc.Peripherals.VgaFramebuffer

set_option autoImplicit false
set_option relaxedAutoImplicit false

namespace RiscvSoc.Peripherals.VgaRaster

open RiscvSoc.Clocked.Recurrence
open RiscvSoc.Clocked.Trajectory
open RiscvSoc.Peripherals.VgaFramebuffer

/-- The divider and the two counters, which no bus access reaches. -/
structure Raster where
  pixelEn : Bool
  clkDivCount : ℕ
  hCount : ℕ
  vCount : ℕ

def raster (s : VgaRegs) : Raster where
  pixelEn := s.pixelEn
  clkDivCount := s.clkDivCount
  hCount := s.hCount
  vCount := s.vCount

namespace Raster

/-- One edge out of reset. -/
def next (clkDiv : ℕ) (r : Raster) : Raster where
  pixelEn := r.clkDivCount == clkDiv - 1
  clkDivCount :=
    if r.clkDivCount == clkDiv - 1 then 0
    else (r.clkDivCount + 1) % 2 ^ clkDivBits clkDiv
  hCount :=
    if r.pixelEn then if r.hCount = hCountMax - 1 then 0 else (r.hCount + 1) % 2 ^ 10
    else r.hCount
  vCount :=
    if r.pixelEn && r.hCount == hCountMax - 1 then
      if r.vCount = vCountMax - 1 then 0 else (r.vCount + 1) % 2 ^ 10
    else r.vCount

def frameStart (r : Raster) : Bool := r.hCount == 0 && r.vCount == 0

/-- Pixel periods since the start of the frame. -/
def position (r : Raster) : ℕ := r.vCount * hCountMax + r.hCount

/-- Pixel periods of a frame. -/
def framePixels : ℕ := vCountMax * hCountMax

private theorem frameStart_iff {r : Raster} :
    r.frameStart = true ↔ r.hCount = 0 ∧ r.vCount = 0 := by
  simp [frameStart]

theorem frameStart_position {r : Raster} : r.frameStart = true ↔ r.position = 0 := by
  rw [frameStart_iff, position, hCountMax]
  omega

end Raster

open Raster

variable {clkDiv : ℕ} {r : Raster} {s : VgaRegs} {i : VgaIn}

section Divider

private theorem le_two_pow_clkDivBits (clkDiv : ℕ) : clkDiv ≤ 2 ^ clkDivBits clkDiv := by
  unfold clkDivBits
  split_ifs with more
  · exact Nat.le_pow_clog Nat.one_lt_two clkDiv
  · omega

private theorem pred_lt_two_pow (clkDiv : ℕ) : clkDiv - 1 < 2 ^ clkDivBits clkDiv := by
  have le := le_two_pow_clkDivBits clkDiv
  have pos : 0 < 2 ^ clkDivBits clkDiv := Nat.two_pow_pos _
  omega

end Divider

section Recurrence

private theorem recurrent_divided (clkDiv : ℕ) :
    Recurrent (next clkDiv) fun r => True ∧ r.clkDivCount = clkDiv - 1 := by
  have counts : Counts (next clkDiv) (fun _ => True) (·.clkDivCount) (2 ^ clkDivBits clkDiv)
      (clkDiv - 1) :=
    { hold := fun _ no => absurd trivial no
      step := fun r _ ne => by simp [next, ne] }
  exact counts.recurrent (fun _ => ⟨0, trivial⟩) (pred_lt_two_pow clkDiv)

private theorem recurrent_pixelEn (clkDiv : ℕ) :
    Recurrent (next clkDiv) fun r => r.pixelEn = true :=
  (recurrent_divided clkDiv).after fun r last => by simp [next, last.2]

private theorem recurrent_line (clkDiv : ℕ) :
    Recurrent (next clkDiv) fun r => r.pixelEn = true ∧ r.hCount = hCountMax - 1 := by
  have counts : Counts (next clkDiv) (fun r => r.pixelEn = true) (·.hCount) (2 ^ 10)
      (hCountMax - 1) :=
    { hold := fun r no => by simp [next, no]
      step := fun r en ne => by simp [next, en, ne] }
  exact counts.recurrent (recurrent_pixelEn clkDiv) (by decide)

private theorem recurrent_frame (clkDiv : ℕ) :
    Recurrent (next clkDiv) fun r =>
      (r.pixelEn = true ∧ r.hCount = hCountMax - 1) ∧ r.vCount = vCountMax - 1 := by
  have counts : Counts (next clkDiv) (fun r => r.pixelEn = true ∧ r.hCount = hCountMax - 1)
      (·.vCount) (2 ^ 10) (vCountMax - 1) :=
    { hold := fun r no => by simp_all [next]
      step := fun r en ne => by simp [next, en, ne] }
  exact counts.recurrent (recurrent_line clkDiv) (by decide)

/-- The frame boundary comes back, whatever the counters hold. -/
theorem recurrent_frameStart (clkDiv : ℕ) :
    Recurrent (next clkDiv) fun r => r.frameStart = true :=
  (recurrent_frame clkDiv).after fun r last => by
    simp [next, frameStart, last.1.1, last.1.2, last.2]

end Recurrence

section Regs

theorem raster_posedge (clkDiv : ℕ) (s : VgaRegs) (go : i.rst = false) :
    raster (s.posedge clkDiv i) = (raster s).next clkDiv := by
  simp only [raster, VgaRegs.posedge, next, go, Bool.not_false, Bool.true_and, Bool.false_or,
    Bool.false_eq_true, if_false]
  rfl

theorem frameStart_raster (s : VgaRegs) : s.frameStart = (raster s).frameStart := rfl

/-- Out of reset the counters run by themselves. -/
theorem raster_run {input : ℕ → VgaIn} (clkDiv : ℕ) (s : VgaRegs)
    (go : ∀ n, (input n).rst = false) (n : ℕ) :
    raster (trajectory (VgaRegs.posedge clkDiv) s input n) = (next clkDiv)^[n] (raster s) := by
  induction n with
  | zero => rfl
  | succ n ih =>
    rw [trajectory_succ, raster_posedge _ _ (go n), ih, Function.iterate_succ_apply']

end Regs

section Frame

/-- The counters as every run out of reset has them. -/
structure Timed (clkDiv : ℕ) (r : Raster) : Prop where
  clkDivCount : r.clkDivCount < clkDiv
  pixelEn : r.pixelEn = true → r.clkDivCount = 0
  hCount : r.hCount < hCountMax
  vCount : r.vCount < vCountMax

theorem timed_reset (pos : 0 < clkDiv) (rst : i.rst = true) :
    Timed clkDiv (raster (s.posedge clkDiv i)) := by
  constructor <;> simp [raster, VgaRegs.posedge, rst, pos, hCountMax, vCountMax]

theorem clkDivCount_next (timed : Timed clkDiv r) :
    (r.next clkDiv).clkDivCount = (r.clkDivCount + 1) % clkDiv := by
  have small := timed.clkDivCount
  have fits := le_two_pow_clkDivBits clkDiv
  by_cases last : r.clkDivCount = clkDiv - 1
  · simp [next, last, show clkDiv - 1 + 1 = clkDiv by omega]
  · have inside : r.clkDivCount + 1 < clkDiv := by omega
    simp [next, last, Nat.mod_eq_of_lt inside, Nat.mod_eq_of_lt (inside.trans_le fits)]

theorem pixelEn_next (timed : Timed clkDiv r) :
    (r.next clkDiv).pixelEn = true ↔ (r.clkDivCount + 1) % clkDiv = 0 := by
  have small := timed.clkDivCount
  by_cases last : r.clkDivCount = clkDiv - 1
  · simp [next, last, show clkDiv - 1 + 1 = clkDiv by omega]
  · simp [next, last, Nat.mod_eq_of_lt (show r.clkDivCount + 1 < clkDiv by omega)]

theorem hCount_next (timed : Timed clkDiv r) :
    (r.next clkDiv).hCount =
      if r.pixelEn then (r.hCount + 1) % hCountMax else r.hCount := by
  have small := timed.hCount
  simp only [next, hCountMax] at small ⊢
  by_cases last : r.hCount = 799
  · simp [last]
  · simp only [Nat.reduceSub, last, if_false, Nat.mod_eq_of_lt (show r.hCount + 1 < 800 by omega),
      Nat.mod_eq_of_lt (show r.hCount + 1 < 2 ^ 10 by omega)]

theorem vCount_next (timed : Timed clkDiv r) :
    (r.next clkDiv).vCount =
      if r.pixelEn && r.hCount == hCountMax - 1 then (r.vCount + 1) % vCountMax
      else r.vCount := by
  have small := timed.vCount
  simp only [next, vCountMax] at small ⊢
  by_cases last : r.vCount = 524
  · simp [last]
  · simp only [Nat.reduceSub, last, if_false, Nat.mod_eq_of_lt (show r.vCount + 1 < 525 by omega),
      Nat.mod_eq_of_lt (show r.vCount + 1 < 2 ^ 10 by omega)]

theorem timed_next (timed : Timed clkDiv r) : Timed clkDiv (r.next clkDiv) := by
  have pos : 0 < clkDiv := Nat.zero_lt_of_lt timed.clkDivCount
  refine ⟨?_, ?_, ?_, ?_⟩
  · rw [clkDivCount_next timed]
    exact Nat.mod_lt _ pos
  · rw [clkDivCount_next timed]
    exact (pixelEn_next timed).mp
  · rw [hCount_next timed]
    split_ifs
    · exact Nat.mod_lt _ (by decide)
    · exact timed.hCount
  · rw [vCount_next timed]
    split_ifs
    · exact Nat.mod_lt _ (by decide)
    · exact timed.vCount

/-- A pixel period moves the scan by one position and wraps at the end of the frame. -/
theorem position_next (timed : Timed clkDiv r) :
    (r.next clkDiv).position =
      if r.pixelEn then (r.position + 1) % framePixels else r.position := by
  have hSmall := timed.hCount
  have vSmall := timed.vCount
  simp only [position, framePixels, hCount_next timed, vCount_next timed, hCountMax, vCountMax]
    at hSmall vSmall ⊢
  cases r.pixelEn with
  | false => simp
  | true =>
    by_cases line : r.hCount = 799
    · simp only [line, Bool.true_and, beq_self_eq_true, if_true]
      omega
    · simp only [line, Bool.true_and, beq_iff_eq, if_true, if_false]
      omega

/-- Clock `j` of the frame proper: the scan has left position 0 and counts `clkDiv` clocks for
each position from 1 on. -/
structure Sweep (clkDiv j : ℕ) (r : Raster) : Prop where
  timed : Timed clkDiv r
  clkDivCount : r.clkDivCount = (j + 1) % clkDiv
  pixelEn : r.pixelEn = true ↔ (j + 1) % clkDiv = 0
  position : r.position = 1 + j / clkDiv

theorem sweep_start (timed : Timed clkDiv r) (opening : r.frameStart = true)
    (begun : (r.next clkDiv).frameStart = false) : Sweep clkDiv 0 (r.next clkDiv) := by
  have origin := frameStart_position.mp opening
  have moved : r.pixelEn = true := by
    by_contra still
    have same := position_next timed
    rw [if_neg still, origin] at same
    rw [frameStart_position.mpr same] at begun
    cases begun
  have aligned := timed.pixelEn moved
  refine ⟨timed_next timed, ?_, ?_, ?_⟩
  · rw [clkDivCount_next timed, aligned]
  · rw [pixelEn_next timed, aligned]
  · rw [position_next timed, if_pos moved, origin]
    simp [framePixels, vCountMax, hCountMax]

theorem sweep_next {j : ℕ} (sweep : Sweep clkDiv j r)
    (inside : j + 1 < clkDiv * (framePixels - 1)) : Sweep clkDiv (j + 1) (r.next clkDiv) := by
  have timed := sweep.timed
  refine ⟨timed_next timed, ?_, ?_, ?_⟩
  · rw [clkDivCount_next timed, sweep.clkDivCount, Nat.mod_add_mod]
  · rw [pixelEn_next timed, sweep.clkDivCount, Nat.mod_add_mod]
  · have before : (j + 1) / clkDiv < framePixels - 1 := Nat.div_lt_of_lt_mul inside
    rw [position_next timed, sweep.position, Nat.succ_div]
    by_cases last : clkDiv ∣ j + 1
    · rw [if_pos (sweep.pixelEn.mpr (Nat.mod_eq_zero_of_dvd last)), if_pos last]
      rw [Nat.succ_div, if_pos last] at before
      rw [Nat.add_comm 1, Nat.mod_eq_of_lt (Nat.add_lt_of_lt_sub before), Nat.add_comm]
    · rw [if_neg (fun en => last (Nat.dvd_of_mod_eq_zero (sweep.pixelEn.mp en))), if_neg last]
      rfl

theorem Sweep.not_frameStart {j : ℕ} (sweep : Sweep clkDiv j r) : r.frameStart = false := by
  apply Bool.eq_false_iff.mpr
  intro opening
  have origin := frameStart_position.mp opening
  rw [sweep.position, Nat.add_comm] at origin
  exact Nat.succ_ne_zero _ origin

end Frame

end RiscvSoc.Peripherals.VgaRaster
