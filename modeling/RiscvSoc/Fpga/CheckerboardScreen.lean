/- GID: RiscvSoc/Fpga/CheckerboardScreen
   generality: G
   utility: main
   digest: The checkerboard program on the board, from the words in BRAM to the pixels shown. -/

import RiscvSoc.Fpga.BoardRefinement
import RiscvSoc.Peripherals.VgaScanout
import RiscvSoc.Testbench.CheckerboardRun

set_option autoImplicit false
set_option relaxedAutoImplicit false

namespace RiscvSoc.Fpga.CheckerboardScreen

open RiscvSoc.Clocked.Trajectory
open RiscvSoc.Clocked.Ranking
open RiscvSoc.Cpu.Decoder (Word)
open RiscvSoc.Cpu.IsaStep
open RiscvSoc.Firmware.Checkerboard
open RiscvSoc.Isa.Rv32Hart
open RiscvSoc.Isa.Rv32Program
open RiscvSoc.Memory.ByteLanes
open RiscvSoc.Memory.ByteMemory
open RiscvSoc.Memory.DpRam (BramAddr)
open RiscvSoc.Peripherals.VgaFramebuffer
open RiscvSoc.Peripherals.VgaSwap (frontMem)
open RiscvSoc.Peripherals.VgaScanout
open RiscvSoc.Fpga.RiscvTop
open RiscvSoc.Fpga.BoardRun
open RiscvSoc.Fpga.BoardRefinement
open RiscvSoc.Testbench.TbDiff
open RiscvSoc.Testbench.IsaRun
open RiscvSoc.Testbench.ProgramImage
open RiscvSoc.Testbench.CheckerboardRun

section Framebuffer

variable {s : Soc}

private theorem drawWord_index {k : ℕ} (inside : k < bufWords) :
    wordIndex (drawAddr k) = drawIndex k := by
  have first := drawAddr_firstByte k
  apply BitVec.eq_of_toNat_eq
  rw [first, drawIndex_toNat inside]
  rw [wordIndex, BitVec.extractLsb'_toNat, firstByte_toNat, BitVec.toNat_ofNat, drawWord,
    Nat.shiftRight_eq_div_pow]
  rw [bufWords] at inside
  omega

private theorem draw_ok {k : ℕ} (inside : k < bufWords) (v : Word) :
    accessOk words.length (.store .sw (drawAddr k) v) = true := by
  rw [accessOk, storeTarget_drawIndex inside (drawWord_index inside)]
  rfl

private theorem drawn_watch (bus : Bus (ByteMem 30)) (m : ByteMem 30) {k : ℕ} (le : k ≤ 600) :
    drawn (watch bus (accessOk words.length)) (m, true) k = (drawn bus m k, true) := by
  induction k with
  | zero => rfl
  | succ k ih =>
    have inside : k < bufWords := by
      rw [bufWords]
      omega
    rw [drawn, ih (by omega)]
    change (bus.access _ _, true && accessOk words.length _) = _
    rw [draw_ok inside]
    rfl

private theorem watched_loop (s : Soc) :
    ∃ r N, ∀ j, (place 0 0 (archRegs (startOf s).regfile) (startOf s).csr
      (bytes (n := 30) (startOf s).dmem, true)).after csrSpace
        (watch (benchBus (image words)) (accessOk words.length)) (N + j) =
      some (place 0 22 r (startOf s).csr
        (drawn (benchBus (image words)) (bytes (n := 30) (startOf s).dmem) 600, true)) := by
  have code : CodeAt (watch (benchBus (image words)) (accessOk words.length)) 0 program
      fun _ => True := (codeAt_image (by decide) decode_words).watched
  obtain ⟨r, N, loop⟩ := checkerboard_draws csrSpace (c := (startOf s).csr) code
    (m := (bytes (n := 30) (startOf s).dmem, true)) (fun _ _ => trivial)
    (archRegs (startOf s).regfile)
  refine ⟨r, N, fun j => ?_⟩
  rw [loop j, drawn_watch _ _ (le_refl 600)]

private theorem trapFree_installed (installed : Installed words s) :
    Testbench.Refinement.TrapFree (codeOf words.length s) := by
  rw [codeOf_installed installed]
  exact words_trapFree

private theorem confined_installed (installed : Installed words s) :
    Confined (codeOf words.length s) words.length
      (goldenAfter (codeOf words.length s) (startOf s)) := by
  obtain ⟨r, N, loop⟩ := watched_loop s
  exact confined_of_loop (by decide) installed decode_words rfl loop rfl

/-- With the checkerboard program in BRAM the board, left to its core for enough clocks without a
halt, has the picture in its draw buffer, and BRAM as it was. -/
private theorem framebuffer_picture (ready : Ready s) (installed : Installed words s) :
    ∃ N, ∀ (clkPerBit : ℕ) (input : ℕ → SocIn) (n : ℕ), (∀ k ≤ n, Free clkPerBit s input k) →
      15 * N ≤ occurrences (running clkPerBit s input) 0 n →
      (∀ w : BramAddr, (Soc.run clkPerBit s input (n + 1)).bram.mem w = s.bram.mem w) ∧
        ∀ w < bufWords, (Soc.run clkPerBit s input (n + 1)).vga.buf0.mem w = rowMask (w / 5) := by
  obtain ⟨r, N, loop⟩ := watched_loop s
  have image' := codeOf_installed installed
  refine ⟨N, fun clkPerBit input n free enough => ?_⟩
  obtain ⟨a, c, pace, later, -, -, -, mem⟩ := board_runs_isa ready (trapFree_installed installed)
    (confined_installed installed) n free (by
      intro k _ t _
      rw [image']
      exact even_image decode_words rfl t)
  have late : c = N + (c - N) := by omega
  have reached : isaAfter (codeOf words.length s) (startOf s) c =
      some (place 0 22 r (startOf s).csr
        (drawn (benchBus (image words)) (bytes (n := 30) (startOf s).dmem) 600)) := by
    rw [image', late]
    exact (after_watch (loop (c - N)) rfl).1
  obtain ⟨m, same, bram, draw⟩ := mem _ reached
  have picture' : m = picture (startOf s).dmem 600 := by
    apply bytes_injective
    rw [← same]
    exact drawn_bytes _ _ (le_refl 600)
  have tracks := tracks_ready ready
  constructor
  · intro w
    have index := setWidth_toNat w
    have bound := w.isLt
    rw [bram w, picture', picture, if_neg (by rw [drawWord]; omega)]
    exact (tracks.mem w).symm
  · intro w inside
    have index := drawIndex_toNat inside
    rw [bufWords] at inside
    rw [draw w inside, picture', picture, if_pos (by rw [index, drawWord]; omega), index, drawWord,
      Nat.add_sub_cancel_left]

end Framebuffer

section Screen

variable {v : VgaRegs} {i j : VgaIn} {clkDiv : ℕ}

def Shows (v : VgaRegs) : Prop := ∀ w < bufWords, v.buf0.mem w = rowMask (w / 5)

private theorem monoPixel_picture (single : Single v) (next : Single (v.posedge clkDiv i))
    (shows' : Shows v) (go : i.rst = false) (go' : j.rst = false) (before : v.active = true)
    (visible : (v.posedge clkDiv i).active = true) :
    ((v.posedge clkDiv i).posedge clkDiv j).monoPixel =
      decide ((fbCol (v.posedge clkDiv i) / 8 + fbRow (v.posedge clkDiv i) / 8) % 2 = 1) := by
  have window := active_iff.mp before
  have line : (v.posedge clkDiv i).vCount = v.vCount := by
    have short : v.hCount ≠ 799 := by omega
    simp [VgaRegs.posedge, go, hCountMax, short]
  have row : fbRow (v.posedge clkDiv i) = fbRow v := by rw [fbRow, fbRow, line]
  have inside : 5 * fbRow v + fbCol v / 32 < bufWords := by
    rw [fbRow, fbCol, bufWords]
    omega
  have shown : frontMem v (5 * fbRow v + fbCol v / 32) = rowMask (fbRow v) := by
    have column : fbCol v / 32 < 5 := by
      rw [fbCol]
      omega
    rw [frontMem, single.front, if_neg Bool.false_ne_true, shows' _ inside]
    congr 1
    omega
  have still : (v.posedge clkDiv i).frontBuf = v.frontBuf := next.front.trans single.front.symm
  rw [Peripherals.VgaSwap.monoPixel_posedge go' visible, scanBit_active visible,
    Peripherals.VgaSwap.scanWord_posedge still, scanWordAddr_active before, shown, row]
  exact rowMask_bit _ _

/-- The framebuffer before each edge of the undivided clock, two of them in a clock of the rest. -/
def undivided (clkPerBit : ℕ) (s : Soc) (input : ℕ → SocIn) (e : ℕ) : VgaRegs :=
  if e % 2 = 0 then (Soc.run clkPerBit s input (e / 2)).vga
  else (Soc.run clkPerBit s input (e / 2)).vgaMid (input (e / 2))

private theorem undivided_succ (clkPerBit : ℕ) (s : Soc) (input : ℕ → SocIn) (e : ℕ) :
    undivided clkPerBit s input (e + 1) =
      (undivided clkPerBit s input e).posedge 2
        ((Soc.run clkPerBit s input (e / 2)).vgaIn (input (e / 2))) := by
  rcases Nat.mod_two_eq_zero_or_one e with even | odd
  · rw [undivided, undivided, if_neg (by omega), if_pos even, show (e + 1) / 2 = e / 2 by omega]
    rfl
  · rw [undivided, undivided, if_pos (by omega), if_neg (by omega),
      show (e + 1) / 2 = e / 2 + 1 by omega]
    rfl

end Screen

end RiscvSoc.Fpga.CheckerboardScreen
