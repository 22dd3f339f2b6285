/- GID: RiscvSoc/Peripherals/SpiPicture
   generality: G
   utility: main
   digest: A picture sent over SPI is on the screen one frame later and stays there. -/

import RiscvSoc.Peripherals.SpiDisplay
import RiscvSoc.Peripherals.SpiSession

set_option autoImplicit false
set_option relaxedAutoImplicit false

namespace RiscvSoc.Peripherals.SpiPicture

open RiscvSoc.Clocked.Ranking
open RiscvSoc.Clocked.Trajectory
open RiscvSoc.Peripherals.SpiSlave
open RiscvSoc.Peripherals.SpiDelivery
open RiscvSoc.Peripherals.SpiDisplay
open RiscvSoc.Peripherals.SpiSession
open RiscvSoc.Peripherals.VgaFramebuffer (hCountMax vCountMax)
open RiscvSoc.Peripherals.VgaRaster
open RiscvSoc.Peripherals.VgaRaster.Raster (framePixels)

section Panel

/-- What the display is for: a picture shown, one being drawn, where the next pixel goes, and
whether an exchange of the two has been asked for. -/
@[ext]
structure Panel where
  shown : ℕ → Pixel
  drawn : ℕ → Pixel
  cursor : ℕ
  requested : Bool

namespace Panel

def take (p : Panel) (b : Pixel) : Panel :=
  if VgaSpi.isControl b then
    if VgaSpi.isSwap b then { p with requested := true } else { p with cursor := 0 }
  else { p with drawn := Function.update p.drawn p.cursor b, cursor := (p.cursor + 1) % memDepth }

def exchange (p : Panel) : Panel where
  shown := p.drawn
  drawn := p.shown
  cursor := p.cursor
  requested := false

end Panel

end Panel

section Refinement

variable (s : VgaSpi)

def front (s : VgaSpi) : ℕ → Pixel := if s.buf.currBuffer then s.buf.ram0.mem else s.buf.ram1.mem
def back (s : VgaSpi) : ℕ → Pixel := if s.buf.currBuffer then s.buf.ram1.mem else s.buf.ram0.mem

/-- Where the address counter will be when the next pixel is written. -/
def nextAddr (s : VgaSpi) : ℕ :=
  if memDepth - 1 ≤ s.addrCount then 0
  else if s.addrDelay then s.addrCount + 1
  else s.addrCount

/-- The display as a panel; a pixel that is latched counts as drawn. -/
def panel (s : VgaSpi) : Panel where
  shown := front s
  drawn := if s.wen then Function.update (back s) s.addrCount s.din else back s
  cursor := nextAddr s
  requested := s.buf.swapLatch || s.swapBuf

/-- The counter is beyond the first pixel when it stands at the last one. -/
def Placed (s : VgaSpi) : Prop := memDepth - 1 ≤ s.addrCount → s.addrDelay = true

def swaps (s : VgaSpi) : Bool := s.buf.timing.frameStart && s.buf.swapLatch

variable {s : VgaSpi}

/-- What an edge of `clk` does before the byte of the slave is looked at. -/
def swept (s : VgaSpi) : VgaSpi :=
  { s with wen := false, swapBuf := false, buf := s.buf.posedge s.drawIn }

private theorem currBuffer_swept (go : s.spi.rst = false) :
    (swept s).buf.currBuffer = if swaps s then !s.buf.currBuffer else s.buf.currBuffer := by
  simp only [swept, DoubleBuf.posedge, VgaSpi.drawIn, go, Bool.false_eq_true, if_false]
  rfl

private theorem front_swept (go : s.spi.rst = false) :
    front (swept s) = if swaps s then (panel s).drawn else (panel s).shown := by
  rw [front, currBuffer_swept go]
  cases swaps s <;> cases curr : s.buf.currBuffer <;>
    simp [swept, DoubleBuf.posedge, PixelRam.posedge, VgaSpi.drawIn, panel, front, back, curr]

private theorem back_swept (go : s.spi.rst = false) :
    back (swept s) = if swaps s then (panel s).shown else (panel s).drawn := by
  rw [back, currBuffer_swept go]
  cases swaps s <;> cases curr : s.buf.currBuffer <;>
    simp [swept, DoubleBuf.posedge, PixelRam.posedge, VgaSpi.drawIn, panel, front, back, curr]

private theorem panel_swept (go : s.spi.rst = false) :
    panel (swept s) = if swaps s then (panel s).exchange else panel s := by
  have drawn : (panel (swept s)).drawn = back (swept s) := rfl
  have latch : (swept s).buf.swapLatch = (!swaps s && (panel s).requested) := by
    simp only [swept, DoubleBuf.posedge, VgaSpi.drawIn, go, swaps, panel]
    cases s.buf.swapLatch <;> cases s.swapBuf <;> simp
  apply Panel.ext
  · rw [panel, front_swept go]
    split_ifs <;> rfl
  · rw [drawn, back_swept go]
    split_ifs <;> rfl
  · split_ifs <;> rfl
  · change ((swept s).buf.swapLatch || false) = _
    rw [latch]
    cases swaps s <;> simp [Panel.exchange]

private theorem addr_takeByte (placed : Placed s) {b : Pixel}
    (pixel : ¬ VgaSpi.isControl b = true) :
    (s.takeByte b).addrCount = nextAddr s ∧
      nextAddr (s.takeByte b) = (nextAddr s + 1) % memDepth := by
  have depth : memDepth = 76800 := rfl
  rw [VgaSpi.takeByte, if_neg pixel]
  simp only [nextAddr, depth]
  by_cases last : 76800 - 1 ≤ s.addrCount
  · have delay := placed last
    simp [last, delay]
  · by_cases delay : s.addrDelay = true
    · have wide : (s.addrCount + 1) % 2 ^ 17 = s.addrCount + 1 := Nat.mod_eq_of_lt (by omega)
      simp only [last, delay, if_true, if_false, wide, true_and]
      split_ifs <;> omega
    · simp only [last, delay, if_true, if_false, Bool.false_eq_true, true_and]
      omega

private theorem panel_takeByte (placed : Placed s) (clear : s.wen = false) (b : Pixel) :
    panel (s.takeByte b) = (panel s).take b := by
  by_cases control : VgaSpi.isControl b = true
  · rw [VgaSpi.takeByte, Panel.take, if_pos control, if_pos control]
    split_ifs
    · simp [panel, front, back, nextAddr]
    · simp [panel, front, back, nextAddr, clear, memDepth, resX, resY]
  · obtain ⟨here, next⟩ := addr_takeByte placed control
    have wen : (s.takeByte b).wen = true := by
      rw [VgaSpi.takeByte, if_neg control]
      split_ifs <;> rfl
    have din : (s.takeByte b).din = b := by
      rw [VgaSpi.takeByte, if_neg control]
      split_ifs <;> rfl
    have kept : (s.takeByte b).buf = s.buf ∧ (s.takeByte b).swapBuf = s.swapBuf := by
      rw [VgaSpi.takeByte, if_neg control]
      split_ifs <;> exact ⟨rfl, rfl⟩
    rw [Panel.take, if_neg control, panel, wen, here, din, next]
    simp [panel, front, back, kept.1, kept.2, clear]

private theorem placed_takeByte (placed : Placed s) (b : Pixel) : Placed (s.takeByte b) := by
  rw [Placed, VgaSpi.takeByte]
  split_ifs with control swap last delay
  · exact placed
  · intro small
    exact absurd small (show ¬ memDepth - 1 ≤ 0 by decide)
  · exact fun _ => placed last
  · exact fun _ => delay
  · exact fun _ => rfl

private theorem panel_react (go : s.spi.rst = false) (placed : Placed s) (e : Edge) :
    panel (s.react e) = (taken s.spi e).foldl Panel.take
      (if e = .clk ∧ swaps s = true then (panel s).exchange else panel s) := by
  by_cases clk : e = .clk
  · subst clk
    have step : panel (s.react .clk) = panel s.posedge := rfl
    simp only [step, VgaSpi.posedge, go, Bool.false_eq_true, if_false, taken, true_and]
    rw [← panel_swept go]
    split_ifs
    · exact panel_takeByte (s := swept s) placed rfl _
    · rfl
  · rw [VgaSpi.react, if_neg clk, taken_bus clk, if_neg fun both => clk both.1]
    rfl

private theorem placed_react (placed : Placed s) (e : Edge) : Placed (s.react e) := by
  rw [VgaSpi.react]
  split_ifs
  · simp only [VgaSpi.posedge]
    split_ifs
    · intro small
      exact absurd small (show ¬ memDepth - 1 ≤ 0 by decide)
    · exact placed_takeByte (s := swept s) placed _
    · exact placed
  · exact placed

end Refinement

section Boundary

def boundaryWait (r : Raster) : ℕ :=
  if r.position = 0 then 0
  else 2 * (framePixels - r.position) + if r.pixelEn then 0 else 2 - r.clkDivCount

private theorem boundaryWait_le {r : Raster} : boundaryWait r ≤ 2 * framePixels := by
  have frame : framePixels = 420000 := rfl
  unfold boundaryWait
  split_ifs <;> omega

private theorem position_lt {r : Raster} (timed : Timed clkDiv r) : r.position < framePixels := by
  have h := timed.hCount
  have v := timed.vCount
  simp only [Raster.position, framePixels, hCountMax, vCountMax] at h v ⊢
  omega

private theorem boundaryWait_next {r : Raster} (timed : Timed clkDiv r) (inside : r.position ≠ 0) :
    boundaryWait (r.next clkDiv) + 1 ≤ boundaryWait r := by
  have small := timed.clkDivCount
  have bound := position_lt timed
  have moves := position_next timed
  have count := clkDivCount_next timed
  have enables := pixelEn_next timed
  rw [← count] at enables
  simp only [clkDiv] at small moves count enables ⊢
  simp only [boundaryWait, moves, enables, count]
  cases en : r.pixelEn with
  | true =>
    rw [timed.pixelEn en]
    simp only [if_true, inside, if_false]
    rcases Nat.lt_or_ge (r.position + 1) framePixels with within | last
    · rw [Nat.mod_eq_of_lt within]
      split_ifs <;> omega
    · rw [show r.position + 1 = framePixels by omega, Nat.mod_self, if_pos rfl]
      omega
  | false =>
    simp only [Bool.false_eq_true, inside, if_false]
    split_ifs <;> omega

def requestRank (s : DoubleBuf) : ℕ :=
  if s.swapLatch then boundaryWait s.timing + 1 else 2 * framePixels + 2

private theorem buf_react {t : VgaSpi} (go : t.spi.rst = false) (e : Edge) :
    (t.react e).buf = if e = .clk then t.buf.posedge t.drawIn else t.buf := by
  rw [VgaSpi.react]
  split_ifs
  · simp only [VgaSpi.posedge, go, Bool.false_eq_true, if_false, VgaSpi.takeByte]
    split_ifs <;> rfl
  · rfl

private theorem timing_react {t : VgaSpi} (go : t.spi.rst = false) (e : Edge) :
    (t.react e).buf.timing = if e = .clk then t.buf.timing.next clkDiv else t.buf.timing := by
  rw [buf_react go]
  split_ifs
  · rw [DoubleBuf.posedge, VgaSpi.drawIn, go]
    rfl
  · rfl

private theorem requestRank_react {t : VgaSpi} {e : Edge} (go : t.spi.rst = false)
    (timed : Timed clkDiv t.buf.timing) (req : (panel t).requested = true)
    (waits : ¬ (e = .clk ∧ swaps t = true)) :
    requestRank (t.react e).buf + (decide (e = .clk)).toNat ≤ requestRank t.buf := by
  by_cases clk : e = .clk
  · have unmet : swaps t = false := Bool.eq_false_iff.mpr fun now => waits ⟨clk, now⟩
    have latch : (t.react e).buf.swapLatch = true := by
      rw [buf_react go, if_pos clk, DoubleBuf.posedge, VgaSpi.drawIn, go, ← swaps, unmet]
      rw [panel, Bool.or_comm] at req
      exact req
    rw [requestRank, if_pos latch, timing_react go, if_pos clk, requestRank]
    simp only [clk, decide_true, Bool.toNat_true]
    cases latched : t.buf.swapLatch with
    | true =>
      rw [swaps, latched, Bool.and_true] at unmet
      have inside : t.buf.timing.position ≠ 0 := by
        intro origin
        rw [Raster.frameStart_position.mpr origin] at unmet
        cases unmet
      have closer := boundaryWait_next timed inside
      rw [if_pos rfl]
      omega
    | false =>
      have bound := boundaryWait_le (r := t.buf.timing.next clkDiv)
      simp only [Bool.false_eq_true, if_false]
      omega
  · rw [buf_react go, if_neg clk]
    simp [clk]

/-- In the last clock of a pixel period the colours are those of the pixel of that period. -/
def Shows (picture : ℕ → Pixel) (s : DoubleBuf) : Prop :=
  s.timing.pixelEn = true → s.doutB = picture s.addrB

private theorem addrB_congr {t u : DoubleBuf} (h : t.timing.hCount = u.timing.hCount)
    (v : t.timing.vCount = u.timing.vCount) : t.addrB = u.addrB := by
  have active : vgaActive t.timing = vgaActive u.timing := by simp only [vgaActive, h, v]
  simp only [DoubleBuf.addrB, DoubleBuf.memX, DoubleBuf.memY, vgaX, vgaY, active, h, v]

private theorem doutB_swept {t : VgaSpi} (go : t.spi.rst = false) (unmet : swaps t = false) :
    (swept t).buf.doutB = (panel t).shown t.buf.addrB := by
  rw [DoubleBuf.doutB, currBuffer_swept go, unmet]
  cases curr : t.buf.currBuffer <;>
    simp [swept, DoubleBuf.posedge, PixelRam.posedge, panel, front, curr]

private theorem shows_react {t : VgaSpi} (go : t.spi.rst = false)
    (timed : Timed clkDiv t.buf.timing)
    (unmet : swaps t = false) : Shows (panel t).shown (t.react .clk).buf := by
  intro last
  have timing := timing_react go .clk
  rw [if_pos rfl] at timing
  -- the scan moves at the edge behind this clock, so it has not moved at the one in front of it
  have still : t.buf.timing.pixelEn = false := by
    rw [timing, pixelEn_next timed] at last
    apply Bool.eq_false_iff.mpr
    intro moves
    rw [timed.pixelEn moves] at last
    exact absurd last (by decide)
  have here : (t.react .clk).buf.addrB = t.buf.addrB := by
    apply addrB_congr
    · rw [timing, hCount_next timed, still]
      rfl
    · rw [timing, vCount_next timed, still]
      rfl
  rw [here, buf_react go, if_pos rfl]
  exact doutB_swept go unmet

end Boundary

section Run

/-- The display before edge `n` of a run. -/
abbrev displayAfter (s : VgaSpi) (edges : ℕ → Edge) : ℕ → VgaSpi := trajectory VgaSpi.react s edges

/-- Nothing is on its way to the display and no exchange is outstanding. -/
structure Ready (s : VgaSpi) : Prop where
  spi : Idle s.spi
  placed : Placed s
  swapLatch : s.buf.swapLatch = false
  swapBuf : s.swapBuf = false
  timed : Timed clkDiv s.buf.timing

/-- The command that asks for the exchange. -/
def swapCommand : Pixel := 0x81

/-- What the host sends: the bytes `drawing`, the command, and then nothing more. -/
structure Sends (edges : ℕ → Edge) (drawing : List Pixel) (n : ℕ) : Prop where
  inTime : ∀ k, (wireAfter 8 edges k).InTime (edges k)
  draws : ∀ b ∈ drawing, (VgaSpi.isControl b && VgaSpi.isSwap b) = false
  heard : (wireAfter 8 edges n).heard = drawing ++ [swapCommand]
  silent : ∀ k ≥ n, (wireAfter 8 edges k).heard = (wireAfter 8 edges n).heard

variable {s : VgaSpi} {edges : ℕ → Edge} {drawing : List Pixel} {n : ℕ}

private theorem spi_display (s : VgaSpi) (edges : ℕ → Edge) (n : ℕ) :
    (displayAfter s edges n).spi = spiAfter s.spi 0 edges n := by
  induction n with
  | zero => rfl
  | succ n ih =>
    exact congrArg (Spi.react 0 · (edges n)) ih

private theorem rst_display (ready : Ready s) (sends : Sends edges drawing n) (k : ℕ) :
    (displayAfter s edges k).spi.rst = false := by
  rw [spi_display]
  exact (follows_after (by decide) ready.spi 0 k fun j _ => sends.inTime j).rst

private theorem placed_display (ready : Ready s) (k : ℕ) : Placed (displayAfter s edges k) := by
  induction k with
  | zero => exact ready.placed
  | succ k ih => exact placed_react ih _

private theorem heard_mono (ready : Ready s) (sends : Sends edges drawing n) {j k : ℕ}
    (le : j ≤ k) :
    (wireAfter 8 edges j).heard <+: (wireAfter 8 edges k).heard := by
  induction k, le using Nat.le_induction with
  | base => exact List.prefix_refl _
  | succ k _ ih =>
    have follows := follows_after (by decide) ready.spi 0 k fun j _ => sends.inTime j
    rw [wireAfter, trajectory_succ, heard_react (by decide) follows]
    exact ih.trans (List.prefix_append _ _)

private theorem delivered_sent (ready : Ready s) (sends : Sends edges drawing n) (k : ℕ) :
    delivered s.spi 0 edges k <+: drawing ++ [swapCommand] := by
  have crossed := (words_cross_in_order (by decide) ready.spi 0 k fun j _ => sends.inTime j).1
  rw [← sends.heard]
  rcases Nat.le_total k n with before | after
  · exact crossed.trans (heard_mono ready sends before)
  · rw [← sends.silent k after]
    exact crossed

private theorem requested_take {p : Panel} {b : Pixel}
    (draws : (VgaSpi.isControl b && VgaSpi.isSwap b) = false) :
    (p.take b).requested = p.requested := by
  rw [Panel.take]
  split_ifs with control swap
  · simp [control, swap] at draws
  · rfl
  · rfl

private theorem requested_drawing {p : Panel} {bytes : List Pixel}
    (draws : ∀ b ∈ bytes, (VgaSpi.isControl b && VgaSpi.isSwap b) = false) :
    (bytes.foldl Panel.take p).requested = p.requested := by
  induction bytes generalizing p with
  | nil => rfl
  | cons b bytes ih =>
    rw [List.foldl_cons, ih fun c later => draws c (List.mem_cons_of_mem b later),
      requested_take (draws b List.mem_cons_self)]

/-- The panel when everything has been taken and the buffers have not yet changed places. -/
def asked (s : VgaSpi) (drawing : List Pixel) : Panel :=
  (drawing ++ [swapCommand]).foldl Panel.take (panel s)

private theorem asked_eq (s : VgaSpi) (drawing : List Pixel) :
    asked s drawing = { drawing.foldl Panel.take (panel s) with requested := true } := by
  rw [asked, List.foldl_append, List.foldl_cons, List.foldl_nil]
  rfl

def Exchanged (s : VgaSpi) (edges : ℕ → Edge) (drawing : List Pixel) (k : ℕ) : Prop :=
  delivered s.spi 0 edges k = drawing ++ [swapCommand] ∧
    panel (displayAfter s edges k) = (asked s drawing).exchange

private theorem requested_of_swaps {t : VgaSpi} (now : swaps t = true) :
    (panel t).requested = true := by
  rw [swaps, Bool.and_eq_true] at now
  simp [panel, now.2]

private theorem delivered_of_requested (ready : Ready s) (sends : Sends edges drawing n) {k : ℕ}
    (req : ((delivered s.spi 0 edges k).foldl Panel.take (panel s)).requested = true) :
    delivered s.spi 0 edges k = drawing ++ [swapCommand] := by
  rcases List.prefix_concat_iff.mp (delivered_sent ready sends k) with all | part
  · exact all
  · rw [requested_drawing fun b taken => sends.draws b (part.subset taken)] at req
    simp [panel, ready.swapLatch, ready.swapBuf] at req

private theorem taken_nothing (ready : Ready s) (sends : Sends edges drawing n) {k : ℕ}
    (all : delivered s.spi 0 edges k = drawing ++ [swapCommand]) :
    taken (displayAfter s edges k).spi (edges k) = [] := by
  have next := delivered_sent ready sends (k + 1)
  rw [delivered, emitted_succ, ← delivered, all, ← spiAfter, ← spi_display] at next
  have short := next.length_le
  rw [List.length_append] at short
  exact List.eq_nil_of_length_eq_zero (by omega)

private theorem exchanged_succ (ready : Ready s) (sends : Sends edges drawing n) {k : ℕ}
    (exchanged : Exchanged s edges drawing k) : Exchanged s edges drawing (k + 1) := by
  obtain ⟨all, now⟩ := exchanged
  have nothing := taken_nothing ready sends all
  have still : ¬ (edges k = .clk ∧ swaps (displayAfter s edges k) = true) := by
    intro both
    have req := requested_of_swaps both.2
    rw [now] at req
    cases req
  refine ⟨?_, ?_⟩
  · rw [delivered, emitted_succ, ← delivered, ← spiAfter, ← spi_display, nothing, all,
      List.append_nil]
  · rw [displayAfter, trajectory_succ,
      panel_react (rst_display ready sends k) (placed_display ready k), nothing, if_neg still]
    exact now

private theorem exchanged_mono (ready : Ready s) (sends : Sends edges drawing n) {j k : ℕ}
    (le : j ≤ k)
    (exchanged : Exchanged s edges drawing j) : Exchanged s edges drawing k := by
  induction k, le using Nat.le_induction with
  | base => exact exchanged
  | succ k _ ih => exact exchanged_succ ready sends ih

private theorem exchanged_of_swaps (ready : Ready s) (sends : Sends edges drawing n) {k : ℕ}
    (drawn : panel (displayAfter s edges k) =
      (delivered s.spi 0 edges k).foldl Panel.take (panel s))
    (now : edges k = .clk ∧ swaps (displayAfter s edges k) = true) :
    Exchanged s edges drawing (k + 1) := by
  have req := requested_of_swaps now.2
  rw [drawn] at req
  have all := delivered_of_requested ready sends req
  have nothing := taken_nothing ready sends all
  refine ⟨?_, ?_⟩
  · rw [delivered, emitted_succ, ← delivered, ← spiAfter, ← spi_display, nothing, all,
      List.append_nil]
  · rw [displayAfter, trajectory_succ,
      panel_react (rst_display ready sends k) (placed_display ready k), nothing, if_pos now, drawn,
      all]
    rfl

private theorem drawn_or_exchanged (ready : Ready s) (sends : Sends edges drawing n) (k : ℕ) :
    panel (displayAfter s edges k) = (delivered s.spi 0 edges k).foldl Panel.take (panel s) ∨
      Exchanged s edges drawing k := by
  induction k with
  | zero => exact Or.inl rfl
  | succ k ih =>
    rcases ih with drawn | exchanged
    · by_cases now : edges k = .clk ∧ swaps (displayAfter s edges k) = true
      · exact Or.inr (exchanged_of_swaps ready sends drawn now)
      · refine Or.inl ?_
        rw [displayAfter, trajectory_succ,
          panel_react (rst_display ready sends k) (placed_display ready k), if_neg now, drawn,
          delivered, emitted_succ, ← delivered, ← spiAfter, ← spi_display, List.foldl_append]
    · exact Or.inr (exchanged_succ ready sends exchanged)

private theorem timed_display (ready : Ready s) (sends : Sends edges drawing n) (k : ℕ) :
    Timed clkDiv (displayAfter s edges k).buf.timing := by
  induction k with
  | zero => exact ready.timed
  | succ k ih =>
    have moved := timing_react (rst_display ready sends k) (edges k)
    rw [displayAfter, trajectory_succ, moved]
    split_ifs
    · exact timed_next ih
    · exact ih

private theorem exchanged_within (ready : Ready s) (sends : Sends edges drawing n) {m k : ℕ}
    (le : m ≤ k)
    (all : delivered s.spi 0 edges m = drawing ++ [swapCommand])
    (enough : 2 * framePixels + 3 ≤ clocks edges m k) : Exchanged s edges drawing k := by
  by_contra pending
  have drawn : ∀ j, m ≤ j → j ≤ k →
      panel (displayAfter s edges j) = (delivered s.spi 0 edges j).foldl Panel.take (panel s) := by
    intro j _ to_k
    rcases drawn_or_exchanged ready sends j with drawn | exchanged
    · exact drawn
    · exact absurd (exchanged_mono ready sends to_k exchanged) pending
  have pays : ∀ j, m ≤ j → j < k →
      requestRank (displayAfter s edges (j + 1)).buf + (decide (edges j = .clk)).toNat ≤
        requestRank (displayAfter s edges j).buf := by
    intro j from_m to_k
    have sent := delivered_sent ready sends j
    have reached : drawing ++ [swapCommand] <+: delivered s.spi 0 edges j := by
      rw [← all]
      exact emitted_mono from_m
    have here := drawn j from_m (by omega)
    rw [displayAfter, trajectory_succ]
    apply requestRank_react (rst_display ready sends j) (timed_display ready sends j)
    · rw [here, sent.eq_of_length (le_antisymm sent.length_le reached.length_le), ← asked, asked_eq]
    · intro now
      exact pending (exchanged_mono ready sends to_k (exchanged_of_swaps ready sends here now))
  have bound : clocks edges m k + requestRank (displayAfter s edges k).buf ≤
      requestRank (displayAfter s edges m).buf :=
    @occurrences_add_rank_le (fun j => requestRank (displayAfter s edges j).buf) m k
      (fun j => decide (edges j = .clk)) le pays
  have first : requestRank (displayAfter s edges m).buf ≤ 2 * framePixels + 2 := by
    have wait := boundaryWait_le (r := (displayAfter s edges m).buf.timing)
    unfold requestRank
    split_ifs <;> omega
  omega

private theorem shows_exchanged (ready : Ready s) (sends : Sends edges drawing n) {j k : ℕ}
    (le : j ≤ k)
    (exchanged : Exchanged s edges drawing j) (some : 1 ≤ clocks edges j k) :
    Shows (drawing.foldl Panel.take (panel s)).drawn (displayAfter s edges k).buf := by
  induction k, le using Nat.le_induction with
  | base => simp [clocks, occurrences] at some
  | succ k le ih =>
    rw [displayAfter, trajectory_succ]
    by_cases clk : edges k = .clk
    · have now := (exchanged_mono ready sends le exchanged).2
      have unmet : swaps (displayAfter s edges k) = false := by
        apply Bool.eq_false_iff.mpr
        intro swapping
        have req := requested_of_swaps swapping
        rw [now] at req
        cases req
      have shows := shows_react (rst_display ready sends k) (timed_display ready sends k) unmet
      rw [now, Panel.exchange, asked_eq] at shows
      rw [clk]
      exact shows
    · rw [buf_react (rst_display ready sends k), if_neg clk]
      apply ih
      rw [clocks, occurrences_succ le, ← clocks] at some
      simpa only [clk, decide_false, Bool.toNat_false, Nat.add_zero] using some

private theorem shows_drawing (ready : Ready s) (sends : Sends edges drawing n) {k : ℕ} (le : n ≤ k)
    (enough : 2 * framePixels + 8 ≤ clocks edges n k) :
    Shows (drawing.foldl Panel.take (panel s)).drawn (displayAfter s edges k).buf := by
  have some : 4 ≤ clocks edges n k := by omega
  obtain ⟨m, from_n, m_to_k, four⟩ : ∃ m, n ≤ m ∧ m ≤ k ∧ clocks edges n m = 4 :=
    exists_occurrences_eq le some
  have after : clocks edges n k = clocks edges n m + clocks edges m k :=
    occurrences_add from_n m_to_k
  have frame : 2 * framePixels + 3 ≤ clocks edges m k := by omega
  obtain ⟨j, from_m, j_to_k, waited⟩ :
      ∃ j, m ≤ j ∧ j ≤ k ∧ clocks edges m j = 2 * framePixels + 3 :=
    exists_occurrences_eq m_to_k frame
  have shown : clocks edges m k = clocks edges m j + clocks edges j k :=
    occurrences_add from_m j_to_k
  have arrived := (words_cross_in_order (by decide) ready.spi 0 m fun j _ => sends.inTime j).2
    n from_n four.ge
  rw [sends.heard] at arrived
  have sent := delivered_sent ready sends m
  have all := sent.eq_of_length (le_antisymm sent.length_le arrived.length_le)
  exact shows_exchanged ready sends j_to_k (exchanged_within ready sends from_m all waited.ge)
    (by omega)

end Run

section Picture

/-- `0b00RRGGBB` on the four bits of each channel. -/
def rgb (b : Pixel) : BitVec 4 × BitVec 4 × BitVec 4 :=
  (b.extractLsb' 4 2 ++ 0#2, b.extractLsb' 2 2 ++ 0#2, b.extractLsb' 0 2 ++ 0#2)

/-- The screen shows the picture, two lines of two dots for each pixel, row by row; in the first of
the two clocks of a dot it may still show the dot before. -/
def OnScreen (picture : ℕ → Pixel) (s : DoubleBuf) : Prop :=
  (vgaActive s.timing = true → s.timing.pixelEn = true →
      s.colour = rgb (picture (vgaX s.timing / 2 + 320 * (vgaY s.timing / 2)))) ∧
    (vgaActive s.timing = false → s.colour = (0, 0, 0))

/-- The command that sends the address counter back to the first pixel. -/
def alignCommand : Pixel := 0x80

/-- A whole picture, as the host sends it. -/
def pictureBytes (picture : ℕ → Pixel) : List Pixel :=
  alignCommand :: (List.range memDepth).map picture

variable {s : VgaSpi} {edges : ℕ → Edge} {picture : ℕ → Pixel} {n : ℕ}

private theorem addrB_active {t : DoubleBuf} (active : vgaActive t.timing = true) :
    t.addrB = vgaX t.timing / 2 + 320 * (vgaY t.timing / 2) ∧ t.addrB < memDepth := by
  have inside := active
  simp only [vgaActive, Bool.and_eq_true, decide_eq_true_eq] at inside
  have x : vgaX t.timing = t.timing.hCount - 144 := if_pos active
  have y : vgaY t.timing = t.timing.vCount - 35 := if_pos active
  have column : vgaX t.timing / 2 < 320 := by omega
  have row : vgaY t.timing / 2 < 240 := by omega
  simp only [DoubleBuf.addrB, DoubleBuf.memX, DoubleBuf.memY, resDiv, resX, memDepth, resY]
  rw [Nat.mod_eq_of_lt (column.trans (by decide)), Nat.mod_eq_of_lt (row.trans (by decide)),
    Nat.mod_eq_of_lt (by omega)]
  omega

private theorem drawn_pixels (plain : ∀ a < memDepth, VgaSpi.isControl (picture a) = false)
    {p : Panel}
    (first : p.cursor = 0) {k : ℕ} (le : k ≤ memDepth) :
    (((List.range k).map picture).foldl Panel.take p).cursor = k % memDepth ∧
      ∀ a < k, (((List.range k).map picture).foldl Panel.take p).drawn a = picture a := by
  induction k with
  | zero => exact ⟨first, fun a none => absurd none (Nat.not_lt_zero a)⟩
  | succ k ih =>
    obtain ⟨cursor, drawn⟩ := ih (by omega)
    have pixel : ¬ VgaSpi.isControl (picture k) = true := by simp [plain k le]
    rw [List.range_succ, List.map_append, List.foldl_append, List.map_singleton, List.foldl_cons,
      List.foldl_nil, Panel.take, if_neg pixel]
    simp only [cursor, Nat.mod_eq_of_lt le, true_and]
    intro a below
    rcases Nat.lt_or_eq_of_le (Nat.le_of_lt_succ below) with earlier | rfl
    · rw [Function.update_of_ne earlier.ne]
      exact drawn a earlier
    · exact Function.update_self _ _ _

private theorem picture_drawn (plain : ∀ a < memDepth, VgaSpi.isControl (picture a) = false)
    (p : Panel)
    {a : ℕ} (inside : a < memDepth) :
    ((pictureBytes picture).foldl Panel.take p).drawn a = picture a := by
  have aligned : (p.take alignCommand).cursor = 0 := by
    rw [Panel.take, if_pos (by decide), if_neg (by decide)]
  rw [pictureBytes, List.foldl_cons]
  exact (drawn_pixels plain aligned (Nat.le_refl memDepth)).2 a inside

/-- A picture sent over SPI is on the screen within a frame and nine clocks of its last byte, and
stays there: no pixel lost, none in the wrong place, in whatever order the edges of the two clocks
arrive. -/
theorem picture_on_screen (ready : Ready s)
    (plain : ∀ a < memDepth, VgaSpi.isControl (picture a) = false)
    (sends : Sends edges (pictureBytes picture) n) {k : ℕ} (le : n ≤ k)
    (enough : 2 * framePixels + 8 ≤ clocks edges n k) :
    OnScreen picture (displayAfter s edges k).buf := by
  have shows := shows_drawing ready sends le enough
  refine ⟨fun active last => ?_, fun dark => ?_⟩
  · obtain ⟨place, inside⟩ := addrB_active active
    have colour : (displayAfter s edges k).buf.colour = rgb (displayAfter s edges k).buf.doutB :=
      if_pos active
    rw [colour, shows last, picture_drawn plain _ inside, place]
  · rw [DoubleBuf.colour, dark]
    rfl

def resetDisplay : VgaSpi where
  spi := resetSpi 8
  addrCount := 0
  addrDelay := false
  din := 0
  wen := false
  swapBuf := false
  buf := ⟨false, false, false, ⟨false, 0, 0, 0⟩, ⟨fun _ => 0, 0, 0⟩, ⟨fun _ => 0, 0, 0⟩⟩

private theorem ready_reset : Ready resetDisplay where
  spi := idle_reset 8
  placed := fun small => absurd small (show ¬ memDepth - 1 ≤ 0 by decide)
  swapLatch := rfl
  swapBuf := rfl
  timed := ⟨by decide, nofun, by decide, by decide⟩

private theorem sends_session (plain : ∀ a < memDepth, VgaSpi.isControl (picture a) = false) :
    Sends (played (pictureBytes picture ++ [swapCommand])) (pictureBytes picture)
      (session (pictureBytes picture ++ [swapCommand])).length where
  inTime := inTime_session (by decide) _
  draws := by
    intro b sent
    rcases List.mem_cons.mp sent with rfl | pixel
    · rfl
    · obtain ⟨a, inside, rfl⟩ := List.mem_map.mp pixel
      rw [plain a (List.mem_range.mp inside), Bool.false_and]
  heard := heard_session (by decide) _ le_rfl
  silent := by
    intro k past
    rw [heard_session (by decide) _ past, heard_session (by decide) _ le_rfl]

private theorem clocks_session {ws : List Pixel} {n : ℕ} (past : (session ws).length ≤ n) (k : ℕ) :
    clocks (played ws) n (n + k) = k := by
  induction k with
  | zero => simp [clocks, occurrences]
  | succ k ih =>
    rw [← Nat.add_assoc, clocks, occurrences_succ (Nat.le_add_right n k), ← clocks, ih,
      played_past ws (by omega)]
    rfl

def stripes (a : ℕ) : Pixel := BitVec.ofNat 8 (a % 64)

private theorem stripes_plain (a : ℕ) : VgaSpi.isControl (stripes a) = false := by
  have small : a % 64 < 2 ^ 7 := (Nat.mod_lt a (by decide)).trans (by decide)
  rw [VgaSpi.isControl, stripes, BitVec.getLsbD_ofNat, Nat.testBit_lt_two_pow small, Bool.and_false]

theorem picture_on_screen_stripes :
    OnScreen stripes (displayAfter resetDisplay (played (pictureBytes stripes ++ [swapCommand]))
      ((session (pictureBytes stripes ++ [swapCommand])).length + (2 * framePixels + 8))).buf :=
  picture_on_screen ready_reset (fun a _ => stripes_plain a)
    (sends_session fun a _ => stripes_plain a) (Nat.le_add_right _ _)
    (clocks_session le_rfl _).ge

end Picture

end RiscvSoc.Peripherals.SpiPicture
