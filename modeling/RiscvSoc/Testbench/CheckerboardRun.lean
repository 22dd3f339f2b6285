/- GID: RiscvSoc/Testbench/CheckerboardRun
   generality: G
   utility: main
   digest: The checkerboard program on the pipelined core: what it leaves in memory. -/

import RiscvSoc.Firmware.Checkerboard
import RiscvSoc.Testbench.ProgramImage

set_option autoImplicit false
set_option relaxedAutoImplicit false

namespace RiscvSoc.Testbench.CheckerboardRun

open RiscvSoc.Clocked.Trajectory
open RiscvSoc.Clocked.Ranking
open RiscvSoc.Cpu.Decoder (Word isEcall isEbreak isMret isCsr csrAddr)
open RiscvSoc.Cpu.Datapath (CsrFile aMip)
open RiscvSoc.Cpu.IsaStep
open RiscvSoc.Testbench.TbDiff
open RiscvSoc.Testbench.Refinement
open RiscvSoc.Testbench.Throughput
open RiscvSoc.Testbench.IsaRun
open RiscvSoc.Testbench.ProgramImage
open RiscvSoc.Firmware.Checkerboard
open RiscvSoc.Isa.Rv32Instr
open RiscvSoc.Isa.Rv32Hart
open RiscvSoc.Isa.Rv32Program
open RiscvSoc.Memory.ByteLanes
open RiscvSoc.Memory.ByteMemory

theorem words_trapFree : TrapFree (image words) := trapFree_image (by decide +kernel)

section Picture

/-- The first word of the draw buffer. -/
def drawWord : ℕ := 0x8000400

/-- A memory with the first `k` words of the picture drawn. -/
def picture (m : Memory) (k : ℕ) : Memory := fun w =>
  if drawWord ≤ w.toNat ∧ w.toNat < drawWord + k then rowMask ((w.toNat - drawWord) / 5) else m w

theorem drawAddr_firstByte (k : ℕ) :
    drawAddr k = firstByte (BitVec.ofNat 30 (drawWord + k)) := by
  apply BitVec.eq_of_toNat_eq
  rw [firstByte_toNat, drawAddr, addr, BitVec.toNat_add, BitVec.toNat_ofNat, BitVec.toNat_ofNat,
    drawWord]
  have base : (0x20001000 : BitVec 32).toNat = 4 * 0x8000400 := rfl
  omega

private theorem picture_succ (m : Memory) {k : ℕ} (small : k ≤ 600) :
    writeMasked (picture m k) (BitVec.ofNat 30 (drawWord + k)) (rowMask (k / 5)) 0b1111#4 =
      picture m (k + 1) := by
  funext w
  have index : (BitVec.ofNat 30 (drawWord + k)).toNat = drawWord + k := by
    rw [BitVec.toNat_ofNat, drawWord]
    omega
  by_cases here : w = BitVec.ofNat 30 (drawWord + k)
  · subst here
    rw [writeMasked_same, mergeBytes_full, picture, if_pos (by omega), index,
      Nat.add_sub_cancel_left]
  · have other : w.toNat ≠ drawWord + k := fun same =>
      here (BitVec.eq_of_toNat_eq (same.trans index.symm))
    rw [writeMasked_other _ _ _ here, picture, picture]
    congr 1
    rw [eq_iff_iff]
    omega

/-- The stores of the program, in bytes, draw the picture. -/
theorem drawn_bytes (imem m : Memory) {k : ℕ} (small : k ≤ 600) :
    drawn (benchBus imem) (bytes (n := 30) m) k = bytes (n := 30) (picture m k) := by
  induction k with
  | zero =>
    refine congrArg bytes (funext fun w => ?_)
    exact (if_neg (by omega)).symm
  | succ k ih =>
    change (drawn (benchBus imem) (bytes (n := 30) m) k).write (drawAddr k) .sw _ = _
    rw [ih (by omega), drawAddr_firstByte]
    exact (write_firstByte (n := 30) _ _ _).trans (by rw [picture_succ m (by omega)])

private theorem picture_pixel (m : Memory) {x y : ℕ} (column : x < 160) (line : y < 120) :
    (picture m 600 (BitVec.ofNat 30 (drawWord + (5 * y + x / 32)))).getLsbD (x % 32) =
      decide ((x / 8 + y / 8) % 2 = 1) := by
  have index : (BitVec.ofNat 30 (drawWord + (5 * y + x / 32))).toNat =
      drawWord + (5 * y + x / 32) := by
    rw [BitVec.toNat_ofNat, drawWord]
    omega
  have row : (drawWord + (5 * y + x / 32) - drawWord) / 5 = y := by omega
  rw [picture, index, if_pos (by omega), row]
  exact rowMask_bit y x

end Picture

private theorem dmem_picture (start : Start) :
    ∃ N, ∀ (cycles : ℕ → Cycle) (n : ℕ),
      5 * N ≤ occurrences (openClock (image words) start cycles) 0 n →
      (dutAfter (image words) start cycles (n + 1)).dmem = picture start.dmem 600 := by
  obtain ⟨r, N, reached⟩ := checkerboard_draws csrSpace
    (c := start.csr) (m := bytes (n := 30) start.dmem)
    (codeAt_image (by decide) decode_words) (fun _ _ => trivial) (archRegs start.regfile)
  refine ⟨N, fun cycles n enough => ?_⟩
  obtain ⟨a, c, pace, order, -, -, -, mem⟩ := pipeline_runs_isa (image words) start cycles
    words_trapFree n fun _ _ s _ => even_image decode_words rfl s
  have done : isaAfter (image words) start c =
      some (place 0 22 r start.csr (drawn (benchBus (image words)) (bytes start.dmem) 600)) := by
    have late : c = N + (c - N) := by omega
    rw [late]
    exact reached (c - N)
  have final := mem _ done
  rw [show (place 0 22 r start.csr _).mem = _ from rfl, drawn_bytes _ _ (by omega)] at final
  have last : (dutAfter (image words) start cycles (n + 1)).dmem =
      clockDmem (dutAfter (image words) start cycles n).dmem
        (dutAfter (image words) start cycles n).core.dataPort :=
    congrArg Dut.dmem (trajectory_succ _ _ _ n)
  rw [last]
  exact bytes_injective final

/-- On the pipelined core, under every schedule that leaves it enough open clocks, the checkerboard
program ends with squares of eight by eight pixels in the 600 words of the picture and the rest of
the memory as it was, for good. -/
theorem checkerboard_on_pipeline (start : Start) :
    ∃ N, ∀ (cycles : ℕ → Cycle) (n : ℕ),
      5 * N ≤ occurrences (openClock (image words) start cycles) 0 n →
      (∀ x < 160, ∀ y < 120,
        ((dutAfter (image words) start cycles (n + 1)).dmem
          (BitVec.ofNat 30 (drawWord + (5 * y + x / 32)))).getLsbD (x % 32) =
            decide ((x / 8 + y / 8) % 2 = 1)) ∧
      ∀ w : BitVec 30, w.toNat < drawWord ∨ drawWord + 600 ≤ w.toNat →
        (dutAfter (image words) start cycles (n + 1)).dmem w = start.dmem w := by
  obtain ⟨N, drawn⟩ := dmem_picture start
  refine ⟨N, fun cycles n enough => ?_⟩
  rw [drawn cycles n enough]
  refine ⟨fun x column y line => picture_pixel start.dmem column line, fun w outside => ?_⟩
  exact if_neg (by omega)

end RiscvSoc.Testbench.CheckerboardRun
