/- GID: RiscvSoc/Peripherals/VgaScanout
   generality: G
   utility: main
   digest: Which bit of which word scanout shows at each position of the screen. -/

import RiscvSoc.Peripherals.VgaRead
import RiscvSoc.Peripherals.VgaSwap

set_option autoImplicit false
set_option relaxedAutoImplicit false

namespace RiscvSoc.Peripherals.VgaScanout

open RiscvSoc.Clocked.Trajectory
open RiscvSoc.Cpu.Decoder
open RiscvSoc.Peripherals.VgaFramebuffer
open RiscvSoc.Peripherals.VgaRaster
open RiscvSoc.Peripherals.VgaSwap

/-- The framebuffer coordinates of the position the counters hold. -/
def fbCol (s : VgaRegs) : ℕ := (s.hCount - 144) / 4
def fbRow (s : VgaRegs) : ℕ := (s.vCount - 35) / 4

/-- The bit of the front buffer that belongs to that position. -/
def frontBit (s : VgaRegs) : Bool :=
  (frontMem s (5 * fbRow s + fbCol s / 32)).getLsbD (fbCol s % 32)

/-- The same bit of the word `w`. -/
def bitOfWord (s : VgaRegs) (w : ℕ) : Bool := (frontMem s w).getLsbD (fbCol s % 32)

/-- The word before that of the position. The first one of a line follows word 0, which is
addressed outside of the visible window. -/
def wordBefore (s : VgaRegs) : ℕ :=
  if fbCol s = 0 then 0 else 5 * fbRow s + fbCol s / 32 - 1

/-- The first clock of a position at which a word begins. -/
def Begins (before now : VgaRegs) : Prop :=
  before.pixelEn = true ∧ (now.hCount - 144) % 128 = 0

/-- An edge that leaves the buffer in front and the contents of both buffers alone. -/
structure Still (s t : VgaRegs) : Prop where
  front : t.frontBuf = s.frontBuf
  mem0 : t.buf0.mem = s.buf0.mem
  mem1 : t.buf1.mem = s.buf1.mem

variable {clkDiv : ℕ} {s : VgaRegs} {i j : VgaIn}

theorem active_iff :
    s.active = true ↔ (144 ≤ s.hCount ∧ s.hCount < 784) ∧ 35 ≤ s.vCount ∧ s.vCount < 515 := by
  simp [VgaRegs.active]

section Address

private theorem fbX_active (visible : s.active = true) : s.fbX = fbCol s := by
  have window := active_iff.mp visible
  rw [VgaRegs.fbX, VgaRegs.screenX, if_pos visible]
  exact Nat.mod_eq_of_lt (by omega)

private theorem fbY_active (visible : s.active = true) : s.fbY = fbRow s := by
  have window := active_iff.mp visible
  rw [VgaRegs.fbY, VgaRegs.screenY, if_pos visible]
  exact Nat.mod_eq_of_lt (by omega)

/-- In the visible window the address and the bit are those of the position. -/
theorem scanWordAddr_active (visible : s.active = true) :
    s.scanWordAddr = 5 * fbRow s + fbCol s / 32 := by
  have window := active_iff.mp visible
  rw [VgaRegs.scanWordAddr, fbX_active visible, fbY_active visible, Nat.mul_comm]
  apply Nat.mod_eq_of_lt
  unfold fbRow fbCol
  omega

theorem scanBit_active (visible : s.active = true) : s.scanBit = fbCol s % 32 := by
  rw [VgaRegs.scanBit, fbX_active visible]

private theorem scanWordAddr_congr {t : VgaRegs} (column : t.hCount = s.hCount)
    (row : t.vCount = s.vCount) : t.scanWordAddr = s.scanWordAddr := by
  have window : t.active = s.active := by
    rw [Bool.eq_iff_iff, active_iff, active_iff, column, row]
  simp only [VgaRegs.scanWordAddr, VgaRegs.fbX, VgaRegs.fbY, VgaRegs.screenX, VgaRegs.screenY,
    window, column, row]

private theorem scanWordAddr_hold (go : i.rst = false) (hold : s.pixelEn = false) :
    (s.posedge clkDiv i).scanWordAddr = s.scanWordAddr := by
  apply scanWordAddr_congr
  · simp [VgaRegs.posedge, go, hold]
  · simp [VgaRegs.posedge, go, hold]

private theorem hCount_lt (bits : s.hCount < 2 ^ 10) : (s.posedge clkDiv i).hCount < 2 ^ 10 := by
  simp only [VgaRegs.posedge]
  split_ifs
  · decide
  · decide
  · exact Nat.mod_lt _ (by decide)
  · exact bits

private theorem counts_before (bits : s.hCount < 2 ^ 10) (go : i.rst = false)
    (moved : s.pixelEn = true)
    (visible : (s.posedge clkDiv i).active = true) :
    (s.posedge clkDiv i).hCount = s.hCount + 1 ∧ (s.posedge clkDiv i).vCount = s.vCount := by
  have window := active_iff.mp visible
  have column : (s.posedge clkDiv i).hCount =
      if s.hCount = hCountMax - 1 then 0 else (s.hCount + 1) % 2 ^ 10 := by
    simp [VgaRegs.posedge, go, moved]
  have inside : s.hCount ≠ hCountMax - 1 := by
    intro last
    rw [column, if_pos last] at window
    omega
  rw [if_neg inside] at column
  refine ⟨by omega, ?_⟩
  simp [VgaRegs.posedge, go, inside]

private theorem not_rst_of_visible (visible : (s.posedge clkDiv i).active = true) :
    i.rst = false := by
  apply Bool.eq_false_iff.mpr
  intro rst
  have window := active_iff.mp visible
  simp only [VgaRegs.posedge, rst, if_true] at window
  omega

private theorem scanWordAddr_begins (bits : s.hCount < 2 ^ 10)
    (visible : (s.posedge clkDiv i).active = true) (moved : s.pixelEn = true)
    (begins : ((s.posedge clkDiv i).hCount - 144) % 128 = 0) :
    s.scanWordAddr = wordBefore (s.posedge clkDiv i) := by
  obtain ⟨column, row⟩ := counts_before bits (not_rst_of_visible visible) moved visible
  have window := active_iff.mp visible
  rw [wordBefore, fbCol, fbRow, column, row]
  rw [column] at begins window
  rw [row] at window
  by_cases before : s.active = true
  · have inside := active_iff.mp before
    rw [scanWordAddr_active before, fbRow, fbCol, if_neg (by omega)]
    omega
  · have edge : s.hCount = 143 := by
      by_contra ne
      exact before (active_iff.mpr (by omega))
    rw [scanWordAddr_dark (Bool.eq_false_iff.mpr before), if_pos (by omega)]

private theorem scanWordAddr_inside (bits : s.hCount < 2 ^ 10)
    (visible : (s.posedge clkDiv i).active = true)
    (inner : ¬ (s.pixelEn = true ∧ ((s.posedge clkDiv i).hCount - 144) % 128 = 0)) :
    s.scanWordAddr =
      5 * fbRow (s.posedge clkDiv i) + fbCol (s.posedge clkDiv i) / 32 := by
  have go := not_rst_of_visible visible
  rw [← scanWordAddr_active visible]
  cases moved : s.pixelEn with
  | false => exact (scanWordAddr_hold go moved).symm
  | true =>
    obtain ⟨column, row⟩ := counts_before bits go moved visible
    have window := active_iff.mp visible
    have later : ((s.posedge clkDiv i).hCount - 144) % 128 ≠ 0 := fun begins =>
      inner ⟨moved, begins⟩
    rw [scanWordAddr_active visible]
    rw [column, row] at window
    rw [column] at later
    rw [scanWordAddr_active (active_iff.mpr (by omega)), fbRow, fbCol, fbRow, fbCol, column, row]
    omega

end Address

section Pixel

/-- The pixel of an edge is a bit of the word that was addressed one edge earlier, with the bit
index of now. -/
private theorem monoPixel_shown (still : Still s (s.posedge clkDiv i)) (go : j.rst = false)
    (visible : (s.posedge clkDiv i).active = true) :
    ((s.posedge clkDiv i).posedge clkDiv j).monoPixel =
      bitOfWord (s.posedge clkDiv i) s.scanWordAddr := by
  have front : frontMem (s.posedge clkDiv i) = frontMem s := by
    rw [frontMem, frontMem, still.front, still.mem0, still.mem1]
  rw [monoPixel_posedge go visible, scanWord_posedge still.front, scanBit_active visible,
    bitOfWord, front]

theorem monoPixel_dark (dark : s.active = false) : (s.posedge clkDiv i).monoPixel = false := by
  simp [VgaRegs.posedge, dark]

private theorem monoPixel_reset (rst : i.rst = true) : (s.posedge clkDiv i).monoPixel = false := by
  simp [VgaRegs.posedge, rst]

/-- Scanout shows the bit of the front buffer that belongs to the position held before an edge,
except in two cases: in the first clock of a position at which a word begins it shows the same bit
of the word before, and on an edge of reset a zero. -/
theorem scanout_exact_iff (clkDiv : ℕ) (s : VgaRegs) (input : ℕ → VgaIn) (n : ℕ)
    (bits : s.hCount < 2 ^ 10)
    (still : Still (run clkDiv s input n) (run clkDiv s input (n + 1))) :
    (run clkDiv s input (n + 2)).monoPixel =
        ((run clkDiv s input (n + 1)).active && frontBit (run clkDiv s input (n + 1))) ↔
      ((run clkDiv s input (n + 1)).active = true →
        ((input (n + 1)).rst = true → frontBit (run clkDiv s input (n + 1)) = false) ∧
        ((input (n + 1)).rst = false →
          Begins (run clkDiv s input n) (run clkDiv s input (n + 1)) →
          frontBit (run clkDiv s input (n + 1)) =
            bitOfWord (run clkDiv s input (n + 1)) (wordBefore (run clkDiv s input (n + 1))))) := by
  cases visible : (run clkDiv s input (n + 1)).active with
  | false =>
    have dark : (run clkDiv s input (n + 2)).monoPixel = false := monoPixel_dark visible
    simp [dark]
  | true =>
    have inBits : (run clkDiv s input n).hCount < 2 ^ 10 :=
      trajectory_invariant (fun t : VgaRegs => t.hCount < 2 ^ 10) (fun _ _ => True) bits
        (fun _ _ small _ => hCount_lt small) n fun _ _ => trivial
    rw [Bool.true_and]
    cases rst : (input (n + 1)).rst with
    | true =>
      have zero : (run clkDiv s input (n + 2)).monoPixel = false := monoPixel_reset rst
      rw [zero]
      exact ⟨fun same _ => ⟨fun _ => same.symm, fun on => absurd on Bool.true_eq_false.mp⟩,
        fun right => ((right rfl).1 rfl).symm⟩
    | false =>
      have shown : (run clkDiv s input (n + 2)).monoPixel =
          bitOfWord (run clkDiv s input (n + 1)) (run clkDiv s input n).scanWordAddr :=
        monoPixel_shown still rst visible
      rw [shown]
      by_cases begins : Begins (run clkDiv s input n) (run clkDiv s input (n + 1))
      · have word : (run clkDiv s input n).scanWordAddr =
            wordBefore (run clkDiv s input (n + 1)) :=
          scanWordAddr_begins inBits visible begins.1 begins.2
        rw [word]
        exact ⟨fun same _ => ⟨fun on => absurd on Bool.false_ne_true, fun _ _ => same.symm⟩,
          fun right => ((right rfl).2 rfl begins).symm⟩
      · have word : (run clkDiv s input n).scanWordAddr =
            5 * fbRow (run clkDiv s input (n + 1)) + fbCol (run clkDiv s input (n + 1)) / 32 :=
          scanWordAddr_inside inBits visible begins
        rw [word]
        exact ⟨fun _ _ => ⟨fun on => absurd on Bool.false_ne_true, fun _ on => absurd on begins⟩,
          fun _ => rfl⟩

end Pixel

section Run

def idle : VgaIn := { ctrlStore 0 with we := false }

/-- Reset, then a store of 1 to word 0 of the draw window, then nothing. -/
def painting : ℕ → VgaIn
  | 0 => { idle with rst := true }
  | 1 => { ctrlStore 1 with addr := 0x1000 }
  | _ + 2 => idle

/-- The framebuffer after the store: bit 0 of word 0 is set and nothing else. -/
structure Painted (s : VgaRegs) : Prop where
  mem0 : s.buf0.mem = Function.update (fun _ => 0) 0 1
  mem1 : s.buf1.mem = fun _ => 0
  front : s.frontBuf = false
  pending : s.swapPending = false

private theorem painted_idle (painted : Painted s) : Painted (s.posedge clkDiv idle) := by
  refine ⟨painted.mem0, painted.mem1, ?_, ?_⟩
  · rw [frontBuf_posedge rfl, painted.pending, Bool.and_false, if_neg Bool.false_ne_true]
    exact painted.front
  · rw [swapPending_posedge rfl, painted.pending, Bool.and_false, if_neg Bool.false_ne_true]
    rfl

private theorem painted_run : ∀ n, 2 ≤ n → Painted (run 1 blank painting n) := by
  intro n le
  induction n, le using Nat.le_induction with
  | base => exact ⟨rfl, rfl, rfl, rfl⟩
  | succ n le ih =>
    obtain ⟨m, rfl⟩ : ∃ m, n = m + 2 := ⟨n - 2, by omega⟩
    exact painted_idle ih

private theorem sweep_painting : ∀ j, j < 1 * (Raster.framePixels - 1) →
    Sweep 1 j (raster (run 1 blank painting (3 + j))) := by
  intro j
  induction j with
  | zero =>
    intro _
    have timed : Timed 1 (raster (run 1 blank painting 2)) :=
      timed_run Nat.one_pos rfl 2 Nat.two_pos
    exact sweep_start timed rfl rfl
  | succ j ih =>
    intro more
    have next := raster_posedge (i := idle) 1 (run 1 blank painting (3 + j)) rfl
    have moved := sweep_next (ih (by omega)) more
    rw [← next] at moved
    rw [show 3 + (j + 1) = j + 1 + 2 + 1 by omega]
    rw [show 3 + j = j + 1 + 2 by omega] at moved
    exact moved

private theorem Painted.still {t : VgaRegs} (before : Painted s) (after : Painted t) : Still s t :=
  ⟨after.front.trans before.front.symm, after.mem0.trans before.mem0.symm,
    after.mem1.trans before.mem1.symm⟩

private theorem Painted.frontMem (painted : Painted s) :
    VgaSwap.frontMem s = Function.update (fun _ => 0) 0 1 := by
  rw [VgaSwap.frontMem, painted.front, if_neg Bool.false_ne_true, painted.mem0]

private theorem counts_painting {j column row : ℕ} (inFrame : j < 1 * (Raster.framePixels - 1))
    (small : column < 800) (place : 1 + j = row * 800 + column) :
    (run 1 blank painting (3 + j)).hCount = column ∧
      (run 1 blank painting (3 + j)).vCount = row := by
  have sweep := sweep_painting j inFrame
  have position := sweep.position
  have bound := sweep.timed.hCount
  simp only [Raster.position, raster, hCountMax, Nat.div_one] at position bound
  omega

/-- The dot in the corner of the screen is lit from its first clock on: word 0 follows itself
there. -/
theorem scanout_exact_corner : (run 1 blank painting 28147).monoPixel = true := by
  have painted := painted_run 28146 (by omega)
  have counts : (run 1 blank painting 28146).hCount = 144 ∧
      (run 1 blank painting 28146).vCount = 35 :=
    @counts_painting 28143 144 35 (by decide) (by decide) rfl
  have shown : (run 1 blank painting 28146).active = true := active_iff.mpr (by omega)
  have column : fbCol (run 1 blank painting 28146) = 0 := by rw [fbCol, counts.1]
  have row : fbRow (run 1 blank painting 28146) = 0 := by rw [fbRow, counts.2]
  have lit : frontBit (run 1 blank painting 28146) = true := by
    rw [frontBit, painted.frontMem, column, row]
    decide
  have same := (scanout_exact_iff 1 blank painting 28145 (by decide)
    ((painted_run 28145 (by omega)).still painted)).mpr fun _ => ⟨fun rst => ?_, fun _ _ => ?_⟩
  · rw [same, shown, lit]
    rfl
  · exact absurd rst Bool.false_ne_true
  · rw [frontBit, bitOfWord, wordBefore, column, row]
    rfl

/-- Scanout reaches column 128 of the first visible line, where word 1 begins, and shows bit 0 of
word 0 there. -/
theorem scanout_shows_previous_word :
    Still (run 1 blank painting 28273) (run 1 blank painting 28274) ∧
      Still (run 1 blank painting 28274) (run 1 blank painting 28275) ∧
      (run 1 blank painting 28275).monoPixel ≠
        ((run 1 blank painting 28274).active && frontBit (run 1 blank painting 28274)) := by
  have first := painted_run 28273 (by omega)
  have second := painted_run 28274 (by omega)
  have third := painted_run 28275 (by omega)
  have countsB : (run 1 blank painting 28273).hCount = 271 ∧
      (run 1 blank painting 28273).vCount = 35 :=
    @counts_painting 28270 271 35 (by decide) (by decide) rfl
  have counts : (run 1 blank painting 28274).hCount = 272 ∧
      (run 1 blank painting 28274).vCount = 35 :=
    @counts_painting 28271 272 35 (by decide) (by decide) rfl
  have shownB : (run 1 blank painting 28273).active = true := active_iff.mpr (by omega)
  have shown : (run 1 blank painting 28274).active = true := active_iff.mpr (by omega)
  have bit : fbCol (run 1 blank painting 28274) = 32 := by rw [fbCol, counts.1]
  have line : fbRow (run 1 blank painting 28274) = 0 := by rw [fbRow, counts.2]
  have word : (run 1 blank painting 28273).scanWordAddr = 0 := by
    rw [scanWordAddr_active shownB, fbRow, fbCol, countsB.1, countsB.2]
  have pixel : (run 1 blank painting 28275).monoPixel =
      bitOfWord (run 1 blank painting 28274) (run 1 blank painting 28273).scanWordAddr :=
    monoPixel_shown (first.still second) rfl shown
  refine ⟨first.still second, second.still third, ?_⟩
  rw [pixel, bitOfWord, word, shown, frontBit, second.frontMem, bit, line]
  decide

end Run

end RiscvSoc.Peripherals.VgaScanout
