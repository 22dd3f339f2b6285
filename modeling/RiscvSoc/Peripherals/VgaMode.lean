/- GID: RiscvSoc/Peripherals/VgaMode
   generality: G
   utility: main
   digest: When the front buffer stands still in single-buffer mode. -/

import RiscvSoc.Peripherals.VgaSwap

set_option autoImplicit false
set_option relaxedAutoImplicit false

namespace RiscvSoc.Peripherals.VgaMode

open RiscvSoc.Clocked.Recurrence
open RiscvSoc.Clocked.Trajectory
open RiscvSoc.Cpu.Decoder
open RiscvSoc.Peripherals.VgaFramebuffer
open RiscvSoc.Peripherals.VgaRaster
open RiscvSoc.Peripherals.VgaSwap

/-- Out of reset no edge moves the front buffer while double buffering is off. -/
def SingleStill (clkDiv : ℕ) (s : VgaRegs) (input : ℕ → VgaIn) : Prop :=
  ∀ n, 0 < n → (input n).rst = false → (run clkDiv s input n).doubleBufEn = false →
    (run clkDiv s input (n + 1)).frontBuf = (run clkDiv s input n).frontBuf

/-- A store to VGA_CTRL with DOUBLE_BUF_EN as given. -/
def setsMode (on : Bool) (i : VgaIn) : Bool :=
  !i.rst && VgaRegs.isCtrlWrite i && i.wdata.getLsbD 0 == on

/-- Double buffering is turned off while a swap is pending and not served on this edge. -/
def withdraws (s : VgaRegs) (i : VgaIn) : Bool :=
  setsMode false i && s.swapPending && !s.frameStart

/-- After edge `m` and before the next frame boundary double buffering is turned on again, or a
reset drops the swap; a reset may come at the boundary itself. -/
def Recalled (clkDiv : ℕ) (s : VgaRegs) (input : ℕ → VgaIn) (m : ℕ) : Prop :=
  ∃ k, m < k ∧ (∀ n, m < n → n < k → (run clkDiv s input n).frameStart = false) ∧
    ((input k).rst = true ∨
      setsMode true (input k) = true ∧ (run clkDiv s input k).frameStart = false)

variable {clkDiv : ℕ} {s : VgaRegs} {i : VgaIn} {input : ℕ → VgaIn}

section Edge

private theorem doubleBufEn_posedge (go : i.rst = false) :
    (s.posedge clkDiv i).doubleBufEn =
      if VgaRegs.isCtrlWrite i then i.wdata.getLsbD 0 else s.doubleBufEn := by
  simp [VgaRegs.posedge, go]

private theorem swapPending_reset (rst : i.rst = true) :
    (s.posedge clkDiv i).swapPending = false := by
  simp [VgaRegs.posedge, rst]

/-- A swap that is pending in single-buffer mode after an edge was so before it, or the edge
withdrew it; in the first case the edge was neither a reset nor a frame boundary and did not turn
double buffering on. -/
private theorem stranded_posedge (single : (s.posedge clkDiv i).doubleBufEn = false)
    (pending : (s.posedge clkDiv i).swapPending = true) :
    withdraws s i = true ∨
      s.doubleBufEn = false ∧ s.swapPending = true ∧ i.rst = false ∧
        setsMode true i = false ∧ s.frameStart = false := by
  cases rst : i.rst with
  | true =>
    rw [swapPending_reset rst] at pending
    cases pending
  | false =>
    rw [doubleBufEn_posedge rst] at single
    rw [swapPending_posedge rst] at pending
    cases write : VgaRegs.isCtrlWrite i <;> cases start : s.frameStart <;>
      cases asked : s.swapPending <;> cases on : i.wdata.getLsbD 0 <;>
      simp_all [withdraws, setsMode]

private theorem stranded_next (go : i.rst = false) (inside : s.frameStart = false)
    (off : setsMode true i = false) (single : s.doubleBufEn = false)
    (pending : s.swapPending = true) :
    (s.posedge clkDiv i).doubleBufEn = false ∧ (s.posedge clkDiv i).swapPending = true := by
  refine ⟨?_, swapPending_inside go inside pending⟩
  rw [doubleBufEn_posedge go]
  cases write : VgaRegs.isCtrlWrite i <;> simp_all [setsMode]

private theorem stranded_withdrawn (withdrawn : withdraws s i = true) :
    (s.posedge clkDiv i).doubleBufEn = false ∧ (s.posedge clkDiv i).swapPending = true := by
  simp only [withdraws, setsMode, Bool.and_eq_true, Bool.not_eq_true', beq_iff_eq] at withdrawn
  obtain ⟨⟨⟨⟨go, write⟩, off⟩, pending⟩, inside⟩ := withdrawn
  refine ⟨?_, swapPending_inside go inside pending⟩
  rw [doubleBufEn_posedge go, if_pos write, off]

end Edge

section Run

private theorem exists_first_boundary (clkDiv : ℕ) (s : VgaRegs) (input : ℕ → VgaIn) (m : ℕ) :
    ∃ t, m < t ∧ ((input t).rst = true ∨ (run clkDiv s input t).frameStart = true) ∧
      ∀ n, m < n → n < t →
        (input n).rst = false ∧ (run clkDiv s input n).frameStart = false := by
  classical
  have occurs : ∃ t, m < t ∧
      ((input t).rst = true ∨ (run clkDiv s input t).frameStart = true) := by
    by_contra never
    push Not at never
    have go : ∀ n, (input (m + 1 + n)).rst = false := fun n =>
      Bool.eq_false_iff.mpr (never (m + 1 + n) (by omega)).1
    obtain ⟨n, boundary⟩ := recurrent_frameStart clkDiv (raster (run clkDiv s input (m + 1)))
    rw [← raster_run clkDiv _ go, ← trajectory_add] at boundary
    exact (never (m + 1 + n) (by omega)).2 boundary
  refine ⟨Nat.find occurs, (Nat.find_spec occurs).1, (Nat.find_spec occurs).2, ?_⟩
  intro n after before
  have none := Nat.find_min occurs before
  push Not at none
  exact ⟨Bool.eq_false_iff.mpr (none after).1, Bool.eq_false_iff.mpr (none after).2⟩

/-- A swap pending in single-buffer mode goes back to a withdrawal since which there was neither a
reset, nor a frame boundary, nor a store that turns double buffering on. -/
private theorem stranded_origin (reset : (input 0).rst = true) :
    ∀ n, 0 < n → (run clkDiv s input n).doubleBufEn = false →
      (run clkDiv s input n).swapPending = true →
      ∃ m, 0 < m ∧ m < n ∧ withdraws (run clkDiv s input m) (input m) = true ∧
        ∀ k, m < k → k < n → (input k).rst = false ∧ setsMode true (input k) = false ∧
          (run clkDiv s input k).frameStart = false := by
  intro n first
  induction n, first using Nat.le_induction with
  | base =>
    intro _ pending
    rw [show run clkDiv s input 1 = s.posedge clkDiv (input 0) from rfl,
      swapPending_reset reset] at pending
    cases pending
  | succ n first ih =>
    intro single pending
    rcases stranded_posedge single pending with withdrawn | ⟨off, asked, go, keeps, inside⟩
    · exact ⟨n, first, by omega, withdrawn, fun k lo hi => by omega⟩
    · obtain ⟨m, pos, before, withdrawn, since⟩ := ih off asked
      refine ⟨m, pos, by omega, withdrawn, fun k lo hi => ?_⟩
      rcases Nat.lt_succ_iff_lt_or_eq.mp hi with earlier | rfl
      · exact since k lo earlier
      · exact ⟨go, keeps, inside⟩

private theorem stranded_until {m t : ℕ}
    (withdrawn : withdraws (run clkDiv s input m) (input m) = true)
    (quiet : ∀ n, m < n → n < t → (input n).rst = false ∧
      (run clkDiv s input n).frameStart = false ∧ setsMode true (input n) = false) :
    ∀ n, m < n → n ≤ t → (run clkDiv s input n).doubleBufEn = false ∧
      (run clkDiv s input n).swapPending = true := by
  intro n after
  induction n, after using Nat.le_induction with
  | base => exact fun _ => stranded_withdrawn withdrawn
  | succ n after ih =>
    intro le
    obtain ⟨go, inside, off⟩ := quiet n after (by omega)
    obtain ⟨single, pending⟩ := ih (by omega)
    exact stranded_next go inside off single pending

private theorem flips_of_lost {m : ℕ}
    (withdrawn : withdraws (run clkDiv s input m) (input m) = true)
    (lost : ¬Recalled clkDiv s input m) :
    ∃ t, m < t ∧ (input t).rst = false ∧ (run clkDiv s input t).doubleBufEn = false ∧
      (run clkDiv s input (t + 1)).frontBuf ≠ (run clkDiv s input t).frontBuf := by
  obtain ⟨t, after, boundary, before⟩ := exists_first_boundary clkDiv s input m
  have inside : ∀ n, m < n → n < t → (run clkDiv s input n).frameStart = false :=
    fun n lo hi => (before n lo hi).2
  have go : (input t).rst = false := by
    apply Bool.eq_false_iff.mpr
    intro rst
    exact lost ⟨t, after, inside, .inl rst⟩
  have opening : (run clkDiv s input t).frameStart = true :=
    boundary.resolve_left (Bool.eq_false_iff.mp go)
  have off : ∀ n, m < n → n < t → setsMode true (input n) = false := by
    intro n lo hi
    apply Bool.eq_false_iff.mpr
    intro on
    exact lost ⟨n, lo, fun k first last => inside k first (by omega),
      .inr ⟨on, inside n lo hi⟩⟩
  obtain ⟨single, pending⟩ := stranded_until withdrawn
    (fun n lo hi => ⟨(before n lo hi).1, (before n lo hi).2, off n lo hi⟩) t after le_rfl
  refine ⟨t, after, go, single, ?_⟩
  simp only [trajectory_succ, frontBuf_posedge go, opening, pending, Bool.and_self, if_true]
  exact (Bool.not_eq_self _).mp

/-- The front buffer stands still in single-buffer mode, through every run from a reset, exactly
when every swap withdrawn by turning double buffering off is recalled before the next frame
boundary. -/
theorem single_still_iff (clkDiv : ℕ) (s : VgaRegs) (input : ℕ → VgaIn)
    (reset : (input 0).rst = true) :
    SingleStill clkDiv s input ↔
      ∀ m, 0 < m → withdraws (run clkDiv s input m) (input m) = true →
        Recalled clkDiv s input m := by
  constructor
  · intro still m pos withdrawn
    by_contra lost
    obtain ⟨t, after, go, single, flips⟩ := flips_of_lost withdrawn lost
    exact flips (still t (by omega) go single)
  · intro recalled n first go single
    by_contra moved
    have opening : (run clkDiv s input n).frameStart = true := by
      by_contra inside
      exact moved (frontBuf_inside go (Bool.eq_false_iff.mpr inside))
    have pending : (run clkDiv s input n).swapPending = true := by
      by_contra none
      apply moved
      simp only [trajectory_succ, frontBuf_posedge go, Bool.eq_false_iff.mpr none, Bool.and_false,
        Bool.false_eq_true, if_false]
    obtain ⟨m, pos, before, withdrawn, since⟩ := stranded_origin reset n first single pending
    obtain ⟨k, after, inside, back⟩ := recalled m pos withdrawn
    rcases Nat.lt_trichotomy k n with earlier | rfl | later
    · obtain ⟨noRst, off, -⟩ := since k after earlier
      rcases back with rst | ⟨on, -⟩
      · rw [noRst] at rst
        cases rst
      · rw [off] at on
        cases on
    · rcases back with rst | ⟨-, clear⟩
      · rw [go] at rst
        cases rst
      · rw [opening] at clear
        cases clear
    · rw [inside n before later] at opening
      cases opening

/-- Reset; once the frame has begun a swap is requested, and double buffering is turned off in the
next clock, and on again two clocks later. -/
def recalling : ℕ → VgaIn
  | 0 => { ctrlStore 0 with rst := true }
  | 3 => ctrlStore 3
  | 4 => ctrlStore 0
  | 6 => ctrlStore 1
  | _ => { ctrlStore 0 with we := false }

private theorem setsMode_recalling {n : ℕ} (off : setsMode false (recalling n) = true) : n = 4 := by
  unfold recalling at off
  split at off <;> first | rfl | cases off

theorem single_still_recalling :
    withdraws (run 1 blank recalling 4) (recalling 4) = true ∧ SingleStill 1 blank recalling := by
  refine ⟨by decide, (single_still_iff 1 blank recalling rfl).mpr fun m _ withdrawn => ?_⟩
  simp only [withdraws, Bool.and_eq_true] at withdrawn
  obtain rfl := setsMode_recalling withdrawn.1.1
  refine ⟨6, by decide, fun n after before => ?_, .inr ⟨by decide, by decide⟩⟩
  obtain rfl : n = 5 := by omega
  decide

/-- Reset; once the frame has begun a swap is requested, and double buffering is turned off in the
next clock. -/
def withdrawing : ℕ → VgaIn
  | 0 => { ctrlStore 0 with rst := true }
  | 3 => ctrlStore 3
  | 4 => ctrlStore 0
  | _ => { ctrlStore 0 with we := false }

/-- The next frame boundary flips the buffers in single-buffer mode. -/
theorem swap_flips_single_buffer : ¬SingleStill 1 blank withdrawing := by
  intro still
  have lost : ¬Recalled 1 blank withdrawing 4 := by
    rintro ⟨k, after, -, back⟩
    obtain ⟨j, rfl⟩ : ∃ j, k = j + 5 := ⟨k - 5, by omega⟩
    rcases back with rst | ⟨on, -⟩
    · cases rst
    · cases on
  have withdrawn : withdraws (run 1 blank withdrawing 4) (withdrawing 4) = true := by decide
  obtain ⟨t, after, go, single, flips⟩ := flips_of_lost withdrawn lost
  exact flips (still t (by omega) go single)

end Run

end RiscvSoc.Peripherals.VgaMode
