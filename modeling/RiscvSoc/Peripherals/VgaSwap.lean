/- GID: RiscvSoc/Peripherals/VgaSwap
   generality: G
   utility: main
   digest: Double buffering: a frame is scanned out of one unchanging buffer, and what one SWAP
   request does at the frame boundary. -/

import RiscvSoc.Peripherals.VgaRaster

set_option autoImplicit false
set_option relaxedAutoImplicit false

namespace RiscvSoc.Peripherals.VgaSwap

open RiscvSoc.Clocked.Recurrence
open RiscvSoc.Clocked.Trajectory
open RiscvSoc.Cpu.Decoder
open RiscvSoc.Peripherals.VgaFramebuffer
open RiscvSoc.Peripherals.VgaRaster

/-- The framebuffer before edge `n`. -/
abbrev run (clkDiv : ℕ) (s : VgaRegs) (input : ℕ → VgaIn) : ℕ → VgaRegs :=
  trajectory (VgaRegs.posedge clkDiv) s input

/-- The words of the physical buffer that is scanned out. -/
def frontMem (s : VgaRegs) : ℕ → Word := if s.frontBuf then s.buf1.mem else s.buf0.mem

variable {clkDiv : ℕ} {s : VgaRegs} {i : VgaIn} {input : ℕ → VgaIn}

section Edge

theorem frontBuf_posedge (go : i.rst = false) :
    (s.posedge clkDiv i).frontBuf =
      if s.frameStart && s.swapPending then !s.frontBuf else s.frontBuf := by
  simp [VgaRegs.posedge, go]

theorem swapPending_posedge (go : i.rst = false) :
    (s.posedge clkDiv i).swapPending =
      if s.frameStart && s.swapPending then false
      else if VgaRegs.isCtrlWrite i && i.wdata.getLsbD 1 && i.wdata.getLsbD 0 then true
      else s.swapPending := by
  simp [VgaRegs.posedge, go]

/-- Only an edge at the frame boundary moves the front buffer. -/
theorem frontBuf_inside (go : i.rst = false) (inside : s.frameStart = false) :
    (s.posedge clkDiv i).frontBuf = s.frontBuf := by
  rw [frontBuf_posedge go, inside, Bool.false_and, if_neg Bool.false_ne_true]

private theorem doubleBufEn_reset (rst : i.rst = true) :
    (s.posedge clkDiv i).doubleBufEn = false := by
  simp [VgaRegs.posedge, rst]

private theorem frontMem_posedge (double : s.doubleBufEn = true)
    (still : (s.posedge clkDiv i).frontBuf = s.frontBuf) :
    frontMem (s.posedge clkDiv i) = frontMem s := by
  unfold frontMem
  rw [still]
  cases front : s.frontBuf <;>
    simp [VgaRegs.posedge, SyncRam.posedge, VgaRegs.buf0WeCpu, VgaRegs.buf1WeCpu,
      VgaRegs.drawBufSel, double, front]

/-- The word that scanout holds was read from the buffer in front one clock before. -/
theorem scanWord_posedge (still : (s.posedge clkDiv i).frontBuf = s.frontBuf) :
    (s.posedge clkDiv i).scanWord = frontMem s s.scanWordAddr := by
  unfold VgaRegs.scanWord frontMem
  rw [still]
  cases s.frontBuf <;> rfl

theorem monoPixel_posedge (go : i.rst = false) (visible : s.active = true) :
    (s.posedge clkDiv i).monoPixel = s.scanWord.getLsbD s.scanBit := by
  simp [VgaRegs.posedge, go, visible]

theorem scanWordAddr_dark (dark : s.active = false) : s.scanWordAddr = 0 := by
  simp [VgaRegs.scanWordAddr, VgaRegs.fbX, VgaRegs.fbY, VgaRegs.screenX, VgaRegs.screenY, dark]

private theorem scanBit_corner (column : s.hCount = 144) : s.scanBit = 0 := by
  simp [VgaRegs.scanBit, VgaRegs.fbX, VgaRegs.screenX, column]

end Edge

section Frame

theorem timed_run (pos : 0 < clkDiv) (reset : (input 0).rst = true) :
    ∀ n, 0 < n → Timed clkDiv (raster (run clkDiv s input n)) := by
  intro n hn
  induction n, hn using Nat.le_induction with
  | base => exact timed_reset pos reset
  | succ n _ ih =>
    simp only [trajectory_succ]
    cases rst : (input n).rst with
    | true => exact timed_reset pos rst
    | false =>
      rw [raster_posedge _ _ rst]
      exact timed_next ih

/-- What holds in clock `j` of a frame that is scanned out of the words `shown` of the
buffer `front`. -/
structure Scanned (clkDiv : ℕ) (front : Bool) (shown : ℕ → Word) (j : ℕ) (s : VgaRegs) :
    Prop where
  sweep : Sweep clkDiv j (raster s)
  front : s.frontBuf = front
  shown : frontMem s = shown

private theorem Scanned.inside {front : Bool} {shown : ℕ → Word} {j : ℕ}
    (scanned : Scanned clkDiv front shown j s) : s.frameStart = false :=
  scanned.sweep.not_frameStart

private theorem scanned_next {front : Bool} {shown : ℕ → Word} {j : ℕ}
    (scanned : Scanned clkDiv front shown j s) (go : i.rst = false)
    (double : s.doubleBufEn = true) (more : j + 1 < clkDiv * (Raster.framePixels - 1)) :
    Scanned clkDiv front shown (j + 1) (s.posedge clkDiv i) := by
  have still : (s.posedge clkDiv i).frontBuf = s.frontBuf := frontBuf_inside go scanned.inside
  refine ⟨?_, still.trans scanned.front, (frontMem_posedge double still).trans scanned.shown⟩
  rw [raster_posedge _ _ go]
  exact sweep_next scanned.sweep more

private theorem scanned_run {m : ℕ} (timed : Timed clkDiv (raster (run clkDiv s input m)))
    (opening : (run clkDiv s input m).frameStart = true)
    (begun : (run clkDiv s input (m + 1)).frameStart = false) :
    ∀ j, j < clkDiv * (Raster.framePixels - 1) →
      (∀ k, m < k → k ≤ m + 1 + j → (run clkDiv s input k).doubleBufEn = true) →
      Scanned clkDiv (run clkDiv s input (m + 1)).frontBuf
        (frontMem (run clkDiv s input (m + 1))) j (run clkDiv s input (m + 1 + j)) := by
  have go : ∀ n, (run clkDiv s input (n + 1)).doubleBufEn = true → (input n).rst = false := by
    intro n on
    cases rst : (input n).rst with
    | false => rfl
    | true =>
      simp only [trajectory_succ, doubleBufEn_reset rst] at on
      cases on
  intro j
  induction j with
  | zero =>
    intro _ double
    have leaves := raster_posedge clkDiv (run clkDiv s input m) (go m (double _ (by omega) le_rfl))
    refine ⟨?_, rfl, rfl⟩
    simp only [Nat.add_zero, trajectory_succ] at begun ⊢
    rw [frameStart_raster, leaves] at begun
    rw [leaves]
    exact sweep_start timed opening begun
  | succ j ih =>
    intro more double
    have before := ih (by omega) fun k above le => double k above (by omega)
    have here := double (m + 1 + j) (by omega) (by omega)
    have on := double (m + 1 + j + 1) (by omega) (by omega)
    exact scanned_next before (go _ on) here more

/-- Tear-free double buffering. A frame begins in clock `m + 1`, after the last clock of the
window of its frame start; clock `j` of it shows position `1 + j / clkDiv` of 420000. As long as
double buffering stays on, the buffer in front is the same one with the same words, and every
visible pixel is a bit of them. Out of reset the front buffer moves at the frame start only. -/
theorem frame_tear_free (pos : 0 < clkDiv) (s : VgaRegs) (input : ℕ → VgaIn)
    (reset : (input 0).rst = true) :
    (∀ m j, 0 < m → (run clkDiv s input m).frameStart = true →
      (run clkDiv s input (m + 1)).frameStart = false →
      j < clkDiv * (Raster.framePixels - 1) →
      (∀ k, m < k → k ≤ m + 1 + j → (run clkDiv s input k).doubleBufEn = true) →
      (raster (run clkDiv s input (m + 1 + j))).position = 1 + j / clkDiv ∧
      (run clkDiv s input (m + 1 + j)).frontBuf = (run clkDiv s input (m + 1)).frontBuf ∧
      frontMem (run clkDiv s input (m + 1 + j)) = frontMem (run clkDiv s input (m + 1)) ∧
      ((input (m + 1 + j)).rst = false → (run clkDiv s input (m + 1 + j)).active = true →
        (run clkDiv s input (m + 1 + j + 1)).monoPixel =
          (frontMem (run clkDiv s input (m + 1))
            (run clkDiv s input (m + j)).scanWordAddr).getLsbD
              (run clkDiv s input (m + 1 + j)).scanBit)) ∧
    ∀ n, (input n).rst = false →
      (run clkDiv s input (n + 1)).frontBuf ≠ (run clkDiv s input n).frontBuf →
      (run clkDiv s input n).hCount = 0 ∧ (run clkDiv s input n).vCount = 0 := by
  refine ⟨fun m j after opening begun inFrame double => ?_, fun n go moved => ?_⟩
  · have timed := timed_run (s := s) pos reset m after
    have scanned := scanned_run timed opening begun j inFrame double
    refine ⟨scanned.sweep.position, scanned.front, scanned.shown, fun go visible => ?_⟩
    obtain rfl | ⟨p, rfl⟩ : j = 0 ∨ ∃ p, j = p + 1 := by
      cases j with
      | zero => exact .inl rfl
      | succ p => exact .inr ⟨p, rfl⟩
    · have first := scanned.sweep.position
      simp only [Raster.position, raster, hCountMax, Nat.zero_div] at first
      simp only [VgaRegs.active, Bool.and_eq_true, decide_eq_true_eq] at visible
      omega
    · have before := scanned_run timed opening begun p (by omega)
        fun k above le => double k above (by omega)
      have still : (run clkDiv s input (m + 1 + p + 1)).frontBuf =
          (run clkDiv s input (m + 1 + p)).frontBuf := scanned.front.trans before.front.symm
      have word : (run clkDiv s input (m + 1 + p + 1)).scanWord = _ := scanWord_posedge still
      rw [before.shown] at word
      rw [show m + (p + 1) = m + 1 + p by omega, ← word]
      exact monoPixel_posedge go visible
  · have boundary : (run clkDiv s input n).frameStart = true := by
      by_contra inside
      exact moved (frontBuf_inside go (Bool.eq_false_iff.mpr inside))
    simpa [VgaRegs.frameStart] using boundary

def blank : VgaRegs where
  pixelEn := false
  clkDivCount := 0
  hCount := 0
  vCount := 0
  doubleBufEn := false
  frontBuf := false
  swapPending := false
  buf0 := ⟨fun _ => 0, 0, 0⟩
  buf1 := ⟨fun _ => 0, 0, 0⟩
  selD := false
  reD := false
  addrD := 0
  drawBufSelD := false
  peekBufSelD := false
  bufWordAddrValidD := false
  rdata := 0
  monoPixel := false

/-- A store of `wdata` to VGA_CTRL on the bus. -/
def ctrlStore (wdata : Word) : VgaIn :=
  { rst := false, sel := true, addr := 0, wdata, we := true, re := false }

/-- A store of `wdata` to the first word of the draw buffer on the bus. -/
def drawStore (wdata : Word) : VgaIn :=
  { rst := false, sel := true, addr := 0x1000, wdata, we := true, re := false }

/-- Reset; the first word is drawn, double buffering is turned on and a swap requested; from then
on the first word of the buffer behind is cleared again and again. -/
def redrawing : ℕ → VgaIn
  | 0 => { ctrlStore 0 with rst := true }
  | 1 => drawStore 1
  | 2 => ctrlStore 3
  | _ + 3 => drawStore 0

private theorem doubleBufEn_redrawing (n : ℕ) :
    (run 1 blank redrawing (3 + n)).doubleBufEn = true := by
  induction n with
  | zero => decide
  | succ n ih =>
    have input : redrawing (3 + n) = drawStore 0 := by rw [Nat.add_comm]; rfl
    change ((run 1 blank redrawing (3 + n)).posedge 1 (redrawing (3 + n))).doubleBufEn = true
    rw [input]
    exact ih

/-- With the swap pending and the other buffer under way, the pixel in the corner of the screen is
the one that was drawn before the frame began. -/
theorem frame_tear_free_redrawing :
    (run 1 blank redrawing 3).swapPending = true ∧
      (run 1 blank redrawing 4).buf1.mem 0 = 0 ∧
      (run 1 blank redrawing 28146).active = true ∧
      frontMem (run 1 blank redrawing 28146) = frontMem (run 1 blank redrawing 3) ∧
      (run 1 blank redrawing 28147).monoPixel = true := by
  have tearFree := @frame_tear_free 1 (by decide) blank redrawing rfl
  have frame : ∀ j < 28144, _ := fun j small => tearFree.1 2 j (by decide) (by decide) (by decide)
    (by simp only [Raster.framePixels, vCountMax, hCountMax]; omega) fun k above _ => by
      obtain ⟨n, rfl⟩ := Nat.exists_eq_add_of_le (show 3 ≤ k by omega)
      exact doubleBufEn_redrawing n
  have counts : ∀ j h row, j < 28144 → h < 800 → 1 + j = 800 * row + h →
      (run 1 blank redrawing (3 + j)).hCount = h ∧
        (run 1 blank redrawing (3 + j)).vCount = row := by
    intro j h row small width here
    have timed := @timed_run 1 blank redrawing (by decide) rfl (3 + j) (by omega)
    have bound := timed.hCount
    have position : (raster (run 1 blank redrawing (3 + j))).position = 1 + j / 1 :=
      (frame j small).1
    simp only [Raster.position, raster, hCountMax, Nat.div_one] at position bound
    omega
  have corner : (run 1 blank redrawing 28146).hCount = 144 ∧
      (run 1 blank redrawing 28146).vCount = 35 :=
    counts 28143 144 35 (by decide) (by decide) rfl
  have before : (run 1 blank redrawing 28145).hCount = 143 ∧
      (run 1 blank redrawing 28145).vCount = 35 :=
    counts 28142 143 35 (by decide) (by decide) rfl
  have visible : (run 1 blank redrawing 28146).active = true := by
    simp only [VgaRegs.active, Bool.and_eq_true, decide_eq_true_eq]
    omega
  have blanked : (run 1 blank redrawing 28145).active = false := by
    simp only [VgaRegs.active, Bool.and_eq_false_iff, decide_eq_false_iff_not]
    omega
  have shown : ∀ j n, n = 3 + j → j < 28144 → (redrawing n).rst = false →
      (run 1 blank redrawing n).active = true →
      frontMem (run 1 blank redrawing n) = frontMem (run 1 blank redrawing 3) ∧
      (run 1 blank redrawing (n + 1)).monoPixel =
        (frontMem (run 1 blank redrawing 3) (run 1 blank redrawing (n - 1)).scanWordAddr).getLsbD
          (run 1 blank redrawing n).scanBit := by
    rintro j _ rfl small go visible
    rw [show 3 + j - 1 = 2 + j by omega]
    exact ⟨(frame j small).2.2.1, (frame j small).2.2.2 go visible⟩
  obtain ⟨kept, pixel⟩ := shown 28143 28146 rfl (by decide) rfl visible
  refine ⟨by decide, by decide, visible, kept, pixel.trans ?_⟩
  rw [scanWordAddr_dark blanked, scanBit_corner corner.1]
  decide

end Frame

section Swap

/-- A request to swap, held on the bus for the first `k` clocks, and no other access to
VGA_CTRL. -/
structure Strobe (k : ℕ) (input : ℕ → VgaIn) : Prop where
  go : ∀ n, (input n).rst = false
  held : ∀ n < k, VgaRegs.isCtrlWrite (input n) = true
  enable : ∀ n < k, (input n).wdata.getLsbD 0 = true
  request : ∀ n < k, (input n).wdata.getLsbD 1 = true
  quiet : ∀ n, k ≤ n → VgaRegs.isCtrlWrite (input n) = false

/-- The front buffer toggles once, at the first frame boundary that finds the request pending,
and nothing is pending from then on. -/
def SwapsOnce (clkDiv : ℕ) (s : VgaRegs) (input : ℕ → VgaIn) : Prop :=
  ∃ t, 1 ≤ t ∧ (run clkDiv s input t).frameStart = true ∧
    (∀ n, 1 ≤ n → n < t → (run clkDiv s input n).frameStart = false) ∧
    (∀ n ≤ t, (run clkDiv s input n).frontBuf = s.frontBuf) ∧
    ∀ n > t, (run clkDiv s input n).frontBuf = !s.frontBuf ∧
      (run clkDiv s input n).swapPending = false

variable {k n t : ℕ}

private theorem swapPending_held (strobe : Strobe k input) (inside : n < k)
    (free : (run clkDiv s input n).frameStart = false ∨
      (run clkDiv s input n).swapPending = false) :
    (run clkDiv s input (n + 1)).swapPending = true := by
  have idle : ((run clkDiv s input n).frameStart && (run clkDiv s input n).swapPending) = false :=
    Bool.and_eq_false_iff.mpr free
  simp only [trajectory_succ, swapPending_posedge (strobe.go n), idle, strobe.held n inside,
    strobe.request n inside, strobe.enable n inside, Bool.and_self, Bool.false_eq_true, if_false,
    if_true]

/-- Off the frame boundary a pending request stays pending. -/
theorem swapPending_inside (go : i.rst = false) (inside : s.frameStart = false)
    (pending : s.swapPending = true) : (s.posedge clkDiv i).swapPending = true := by
  rw [swapPending_posedge go, inside, pending]
  simp

private theorem pending_until (pending : s.swapPending = false) (some : 0 < k)
    (strobe : Strobe k input)
    (before : ∀ n, 1 ≤ n → n < t → (run clkDiv s input n).frameStart = false) :
    ∀ n, 1 ≤ n → n ≤ t → (run clkDiv s input n).swapPending = true ∧
      (run clkDiv s input n).frontBuf = s.frontBuf := by
  intro n hn
  induction n, hn using Nat.le_induction with
  | base =>
    refine fun _ => ⟨swapPending_held strobe some (.inr pending), ?_⟩
    simp only [trajectory_succ, frontBuf_posedge (strobe.go 0)]
    simp [trajectory, pending]
  | succ n hn ih =>
    intro le
    obtain ⟨asked, front⟩ := ih (by omega)
    have inside := before n hn (by omega)
    simp only [trajectory_succ]
    exact ⟨swapPending_inside (strobe.go n) inside asked,
      (frontBuf_inside (strobe.go n) inside).trans front⟩

private theorem settled_after {front : Bool} (strobe : Strobe k input) (done : k ≤ t + 1)
    (served : (run clkDiv s input (t + 1)).frontBuf = front ∧
      (run clkDiv s input (t + 1)).swapPending = false) :
    ∀ n > t, (run clkDiv s input n).frontBuf = front ∧
      (run clkDiv s input n).swapPending = false := by
  intro n hn
  induction n, hn using Nat.le_induction with
  | base => exact served
  | succ n hn ih =>
    have quiet := strobe.quiet n (by omega)
    simp only [trajectory_succ, frontBuf_posedge (strobe.go n), swapPending_posedge (strobe.go n),
      ih.1, ih.2, quiet, Bool.and_false, Bool.false_and, Bool.false_eq_true, if_false, and_self]

/-- One SWAP store swaps once exactly when the frame boundary does not meet the inside of its
strobe: of the `k` edges that sample it, only the first and the last may fall into the window
in which the counters, left to themselves, stand at the frame start. -/
theorem swaps_once_iff (clkDiv : ℕ) (s : VgaRegs) (input : ℕ → VgaIn) (k : ℕ)
    (pending : s.swapPending = false) (some : 1 ≤ k) (strobe : Strobe k input) :
    SwapsOnce clkDiv s input ↔
      ∀ j, 1 ≤ j → j + 1 < k →
        ((Raster.next clkDiv)^[j] (raster s)).frameStart = false := by
  have window : ∀ n, (run clkDiv s input n).frameStart =
      ((Raster.next clkDiv)^[n] (raster s)).frameStart := fun n => by
    rw [frameStart_raster, raster_run clkDiv s strobe.go n]
  constructor
  · rintro ⟨t, _, opening, before, -, after⟩ j first inside
    rw [← window]
    apply Bool.eq_false_iff.mpr
    intro meets
    -- the boundary `t` serves the request, and the strobe asks again on the edge after it
    have le : t ≤ j := by
      by_contra later
      rw [before j first (by omega)] at meets
      cases meets
    have again : (run clkDiv s input (t + 1 + 1)).swapPending = true :=
      swapPending_held strobe (by omega) (.inr (after (t + 1) (by omega)).2)
    rw [(after (t + 1 + 1) (by omega)).2] at again
    cases again
  · intro clear
    classical
    have returns : ∃ n, 1 ≤ n ∧ (run clkDiv s input n).frameStart = true := by
      simpa only [window] using (recurrent_frameStart clkDiv).later (raster s) 1
    obtain ⟨first, opening⟩ := Nat.find_spec returns
    have before : ∀ n, 1 ≤ n → n < Nat.find returns →
        (run clkDiv s input n).frameStart = false := fun n hn lt =>
      Bool.eq_false_iff.mpr fun at_n => Nat.find_min returns lt ⟨hn, at_n⟩
    have done : k ≤ Nat.find returns + 1 := by
      by_contra inside
      have low := clear _ first (by omega)
      rw [← window, opening] at low
      cases low
    have waits := pending_until pending some strobe before
    obtain ⟨asked, front⟩ := waits _ first le_rfl
    refine ⟨Nat.find returns, first, opening, before, fun n le => ?_,
      settled_after strobe done ⟨?_, ?_⟩⟩
    · rcases Nat.eq_zero_or_pos n with rfl | hn
      · rfl
      · exact (waits n hn le).2
    · simp only [trajectory_succ, frontBuf_posedge (strobe.go _), opening, asked, front,
        Bool.and_self, if_true]
    · simp only [trajectory_succ, swapPending_posedge (strobe.go _), opening, asked,
        Bool.and_self, if_true]

/-- The bus during a store that asks for a swap and holds it for `k` clocks. -/
def swapStore (k n : ℕ) : VgaIn :=
  if n < k then ctrlStore 3 else { ctrlStore 0 with we := false }

private theorem strobe_swapStore (k : ℕ) : Strobe k (swapStore k) where
  go n := by unfold swapStore; split <;> rfl
  held n inside := by rw [swapStore, if_pos inside]; rfl
  enable n inside := by rw [swapStore, if_pos inside]; rfl
  request n inside := by rw [swapStore, if_pos inside]; rfl
  quiet n after := by rw [swapStore, if_neg (by omega)]; rfl

/-- A store held for two clocks swaps once, wherever the frame is. -/
theorem swaps_once_two : SwapsOnce 2 blank (swapStore 2) :=
  (swaps_once_iff 2 blank (swapStore 2) 2 rfl (by decide) (strobe_swapStore 2)).mpr
    fun j first inside => absurd inside (by omega)

/-- The first clock of the window of a frame start, two clocks for each pixel. -/
def boundary : VgaRegs := { blank with clkDivCount := 1, doubleBufEn := true }

/-- Held for four clocks from the first clock of the window on, the request is served in the
second clock and made again in the third. -/
theorem not_swaps_once_boundary : ¬ SwapsOnce 2 boundary (swapStore 4) := by
  rintro ⟨t, first, -, before, -, after⟩
  have le : t ≤ 1 := by
    by_contra later
    exact absurd (before 1 le_rfl (by omega)) (by decide)
  exact absurd (after 3 (by omega)).2 (by decide)

end Swap

end RiscvSoc.Peripherals.VgaSwap
