/- GID: RiscvSoc/Firmware/Checkerboard
   generality: G
   utility: main
   digest: The checkerboard program, word for word, and the picture it draws. -/

import RiscvSoc.Isa.Rv32Program
import Mathlib.Tactic.SplitIfs

set_option autoImplicit false
set_option relaxedAutoImplicit false

namespace RiscvSoc.Firmware.Checkerboard

open RiscvSoc.Isa.Rv32Alu
open RiscvSoc.Isa.Rv32Instr
open RiscvSoc.Isa.Rv32Hart
open RiscvSoc.Isa.Rv32Program
open RiscvSoc.Memory.ByteMemory

section Program

/-- The words of `vga_checkerboard.mif`, up to the first of the zeros that fill it. -/
def words : List (BitVec 32) := [
  0x200010B7, 0x00000113, 0x07800493, 0x00500413,
  0x00315193, 0x0011F193, 0xFF010237, 0xF0020213, 0x00018663, 0x00FF0237, 0x0FF20213,
  0x00211293, 0x002282B3, 0x00229293, 0x00508333, 0x00000393,
  0x00432023, 0x00430313, 0x00138393, 0xFE83CAE3,
  0x00110113, 0xFA914EE3,
  0x0000006F]

/-- `vga_checkerboard.asm`. -/
def program : List Instr := [
  .lui 1 0x20001, .imm .addi 2 0 0, .imm .addi 9 0 120, .imm .addi 8 0 5,
  -- row_loop
  .shift .srli 3 2 3, .imm .andi 3 3 1, .lui 4 0xFF010, .imm .addi 4 4 0xF00,
  .branch .beq 3 0 6, .lui 4 0x00FF0, .imm .addi 4 4 0x0FF,
  -- mask_ready
  .shift .slli 5 2 2, .reg .add 5 5 2, .shift .slli 5 5 2, .reg .add 6 1 5, .imm .addi 7 0 0,
  -- word_loop
  .store .sw 6 4 0, .imm .addi 6 6 4, .imm .addi 7 7 1, .branch .blt 7 8 0xFFA,
  .imm .addi 2 2 1, .branch .blt 2 9 0xFDE,
  -- loop
  .jal 0 0]

theorem decode_words : words.map decode = program.map some := by decide

end Program

section Picture

def rowMask (row : ℕ) : BitVec 32 := if row / 8 % 2 = 0 then 0xFF00FF00 else 0x00FF00FF

/-- Squares of eight by eight. -/
theorem rowMask_bit (row x : ℕ) :
    (rowMask row).getLsbD (x % 32) = decide ((x / 8 + row / 8) % 2 = 1) := by
  have masks : ∀ b < 32, (0xFF00FF00#32).getLsbD b = decide (b / 8 % 2 = 1) ∧
      (0x00FF00FF#32).getLsbD b = decide (b / 8 % 2 = 0) := by decide
  obtain ⟨even, odd⟩ := masks (x % 32) (by omega)
  rw [rowMask]
  split_ifs with parity
  · refine even.trans (decide_eq_decide.mpr ?_)
    omega
  · refine odd.trans (decide_eq_decide.mpr ?_)
    omega

/-- Word `k` of the draw buffer, five of them a line. -/
def drawAddr (k : ℕ) : BitVec 32 := addr 0x20001000 k

variable {μ : Type} (bus : Bus μ)

/-- The memory after the first `k` stores of the picture. -/
def drawn (m : μ) : ℕ → μ
  | 0 => m
  | k + 1 => bus.access (drawn m k) (.store .sw (drawAddr k) (rowMask (k / 5)))

end Picture

section Run

variable {σ μ : Type} (csrs : CsrSpace σ) {bus : Bus μ} {I : μ → Prop} {c : σ} {m : μ}

/-- The registers the loops keep: buffer, line, words of a line and lines. -/
structure RowRegs (r : Regs) (row : ℕ) : Prop where
  x1 : r.read 1#5 = 0x20001000#32
  x2 : r.read 2#5 = BitVec.ofNat 32 row
  x8 : r.read 8#5 = 5#32
  x9 : r.read 9#5 = 120#32

private theorem parity_bit {row : ℕ} (small : row < 120) :
    (BitVec.ofNat 32 row >>> 3) &&& 1#32 = BitVec.ofNat 32 (row / 8 % 2) := by
  apply BitVec.eq_of_toNat_eq
  simp only [BitVec.toNat_and, BitVec.toNat_ushiftRight, BitVec.toNat_ofNat,
    Nat.shiftRight_eq_div_pow]
  rw [show 1 % 2 ^ 32 = 1 from rfl, Nat.and_one_is_mod]
  omega

private theorem reaches_mask_ready (code : CodeAt bus 0 program I) (inv : I m) {r : Regs} {row : ℕ}
    (small : row < 120) (regs : RowRegs r row) :
    ∃ r', Reaches csrs bus (place 0 4 r c m) (place 0 11 r' c m) ∧ RowRegs r' row ∧
      r'.read 4#5 = rowMask row := by
  let block : List Instr :=
    [.shift .srli 3 2 3, .imm .andi 3 3 1, .lui 4 0xFF010, .imm .addi 4 4 0xF00]
  have even : Reaches csrs bus (place 0 4 r c m) (place 0 8 (block.foldl compute r) c m) :=
    reaches_block code inv block (by decide) rfl
  generalize fold : block.foldl compute r = r1 at even
  have x3 : r1.read 3#5 = BitVec.ofNat 32 (row / 8 % 2) := by
    rw [← fold, ← parity_bit small, ← regs.x2]
    simp [block, compute, ShiftOp.reg, ImmOp.reg, RegOp.value, RegOp.mnemonic, Mnemonic.value]
  have x4 : r1.read 4#5 = 0xFF00FF00#32 := by
    rw [← fold]
    simp [block, compute, ShiftOp.reg, ImmOp.reg, RegOp.value, RegOp.mnemonic, Mnemonic.value]
  have keeps : RowRegs r1 row := by
    rw [← fold]
    constructor <;> simp [block, compute, regs.x1, regs.x2, regs.x8, regs.x9]
  by_cases parity : row / 8 % 2 = 0
  · refine ⟨r1, even.trans ?_, keeps, ?_⟩
    · have get : program[8]? = some (.branch .beq 3 0 6) := rfl
      refine reaches_taken code inv get ?_ (by decide)
      simp [BranchOp.taken, x3, parity]
    · rw [x4, rowMask, if_pos parity]
      rfl
  · let stamp : List Instr := [.lui 4 0x00FF0, .imm .addi 4 4 0x0FF]
    have odd : Reaches csrs bus (place 0 9 r1 c m) (place 0 11 (stamp.foldl compute r1) c m) :=
      reaches_block code inv stamp (by decide) rfl
    generalize fold' : stamp.foldl compute r1 = r2 at odd
    refine ⟨r2, even.trans (Reaches.trans ?_ odd), ?_, ?_⟩
    · have get : program[8]? = some (.branch .beq 3 0 6) := rfl
      refine reaches_not_taken code inv get ?_
      have one : row / 8 % 2 = 1 := by omega
      simp [BranchOp.taken, x3, one]
    · rw [← fold']
      constructor <;> simp [stamp, compute, keeps.x1, keeps.x2, keeps.x8, keeps.x9]
    · rw [← fold', rowMask, if_neg parity]
      simp [stamp, compute, ImmOp.reg, RegOp.value, RegOp.mnemonic, Mnemonic.value]

private theorem drawAddr_aligned (k : ℕ) : (drawAddr k).toNat % 4 = 0 := addr_aligned (by decide) k

private theorem reaches_word_loop (code : CodeAt bus 0 program I) (inv : I m) {r : Regs} {row : ℕ}
    (regs : RowRegs r row) :
    ∃ r', Reaches csrs bus (place 0 11 r c m) (place 0 16 r' c m) ∧ RowRegs r' row ∧
      r'.read 4#5 = r.read 4#5 ∧ r'.read 6#5 = drawAddr (5 * row) ∧ r'.read 7#5 = 0#32 := by
  let block : List Instr :=
    [.shift .slli 5 2 2, .reg .add 5 5 2, .shift .slli 5 5 2, .reg .add 6 1 5, .imm .addi 7 0 0]
  refine ⟨block.foldl compute r, reaches_block code inv block (by decide) rfl, ?_, ?_, ?_, ?_⟩
  · constructor <;> simp [block, compute, regs.x1, regs.x2, regs.x8, regs.x9]
  · simp [block, compute]
  · have five : (BitVec.ofNat 32 row <<< 2 + BitVec.ofNat 32 row) <<< 2 =
        BitVec.ofNat 32 (4 * (5 * row)) := by
      apply BitVec.eq_of_toNat_eq
      simp only [BitVec.toNat_shiftLeft, BitVec.toNat_add, BitVec.toNat_ofNat, Nat.shiftLeft_eq]
      omega
    rw [drawAddr, addr, ← five]
    simp [block, compute, ShiftOp.reg, RegOp.value, RegOp.mnemonic, Mnemonic.value, regs.x1,
      regs.x2]
  · simp [block, compute, ImmOp.reg, RegOp.value, RegOp.mnemonic, Mnemonic.value]

/-- In line `row`, `w` of its words drawn, on to the next word or past the loop. -/
def InWords (bus : Bus μ) (c : σ) (m : μ) (row w : ℕ) (s : Machine σ μ) : Prop :=
  ∃ r, s = place 0 (if w < 5 then 16 else 20) r c (drawn bus m (5 * row + w)) ∧ RowRegs r row ∧
    r.read 4#5 = rowMask row ∧ r.read 6#5 = drawAddr (5 * row + w) ∧
    r.read 7#5 = BitVec.ofNat 32 w

private theorem reaches_next_word (code : CodeAt bus 0 program I)
    (keeps : ∀ k ≤ 600, I (drawn bus m k))
    {row w : ℕ} (line : row < 120) (word : w < 5) {s : Machine σ μ}
    (here : InWords bus c m row w s) :
    ∃ t, Reaches csrs bus s t ∧ InWords bus c m row (w + 1) t := by
  obtain ⟨r, rfl, regs, mask, x6, x7⟩ := here
  rw [if_pos word]
  have inv := keeps (5 * row + w) (by omega)
  have inv' := keeps (5 * row + (w + 1)) (by omega)
  have store : Reaches csrs bus (place 0 16 r c (drawn bus m (5 * row + w)))
      (place 0 17 r c (drawn bus m (5 * row + (w + 1)))) := by
    have get : program[16]? = some (.store .sw 6 4 0) := rfl
    have line : (5 * row + w) / 5 = row := by omega
    have next : drawn bus m (5 * row + (w + 1)) =
        bus.access (drawn bus m (5 * row + w))
          (.store .sw (drawAddr (5 * row + w)) (r.read 4)) := by
      rw [show r.read 4 = rowMask ((5 * row + w) / 5) by rw [line]; exact mask]
      rfl
    rw [next]
    exact reaches_store code inv get (by simp [x6]) (drawAddr_aligned _)
  let block : List Instr := [.imm .addi 6 6 4, .imm .addi 7 7 1]
  have bump : Reaches csrs bus (place 0 17 r c (drawn bus m (5 * row + (w + 1))))
      (place 0 19 (block.foldl compute r) c (drawn bus m (5 * row + (w + 1)))) :=
    reaches_block code inv' block (by decide) rfl
  generalize fold : block.foldl compute r = r1 at bump
  have x6' : r1.read 6#5 = drawAddr (5 * row + (w + 1)) := by
    rw [← fold, ← Nat.add_assoc, drawAddr, ← addr_succ]
    simp [block, compute, ImmOp.reg, RegOp.value, RegOp.mnemonic, Mnemonic.value, x6]
    rfl
  have x7' : r1.read 7#5 = BitVec.ofNat 32 (w + 1) := by
    rw [← fold, BitVec.ofNat_add]
    simp [block, compute, ImmOp.reg, RegOp.value, RegOp.mnemonic, Mnemonic.value, x7]
  have keep : RowRegs r1 row ∧ r1.read 4#5 = rowMask row := by
    rw [← fold]
    refine ⟨?_, ?_⟩
    · constructor <;> simp [block, compute, regs.x1, regs.x2, regs.x8, regs.x9]
    · simp [block, compute, mask]
  refine ⟨_, store.trans (bump.trans ?_), r1, rfl, keep.1, keep.2, x6', x7'⟩
  have get : program[19]? = some (.branch .blt 7 8 0xFFA) := rfl
  have test : BranchOp.taken .blt (r1.read 7) (r1.read 8) = decide (w + 1 < 5) := by
    rw [show r1.read 7 = _ from x7', show r1.read 8 = BitVec.ofNat 32 5 from keep.1.x8]
    exact taken_blt (by omega) (by decide)
  split_ifs with more
  · exact reaches_taken code inv' get (by rw [test]; simpa using more) (by decide)
  · exact reaches_not_taken code inv' get (by rw [test]; simpa using more)

/-- `row` lines drawn, on to the next line or past the loop. -/
def InRows (bus : Bus μ) (c : σ) (m : μ) (row : ℕ) (s : Machine σ μ) : Prop :=
  ∃ r, s = place 0 (if row < 120 then 4 else 22) r c (drawn bus m (5 * row)) ∧ RowRegs r row

private theorem reaches_next_row (code : CodeAt bus 0 program I)
    (keeps : ∀ k ≤ 600, I (drawn bus m k))
    {row : ℕ} (line : row < 120) {s : Machine σ μ} (here : InRows bus c m row s) :
    ∃ t, Reaches csrs bus s t ∧ InRows bus c m (row + 1) t := by
  obtain ⟨r, rfl, regs⟩ := here
  rw [if_pos line]
  have inv := keeps (5 * row) (by omega)
  have inv' := keeps (5 * (row + 1)) (by omega)
  obtain ⟨r1, head, regs1, mask⟩ := reaches_mask_ready csrs (c := c) code inv line regs
  obtain ⟨r2, ready, regs2, same, x6, x7⟩ := reaches_word_loop csrs (c := c) code inv regs1
  have first : InWords bus c m row 0 (place 0 16 r2 c (drawn bus m (5 * row))) :=
    ⟨r2, rfl, regs2, same.trans mask, x6, x7⟩
  obtain ⟨_, words, r3, rfl, regs3, -⟩ := Reaches.loop
    (fun w word _ => reaches_next_word csrs code keeps line word) first
  let block : List Instr := [.imm .addi 2 2 1]
  have bump : Reaches csrs bus (place 0 20 r3 c (drawn bus m (5 * row + 5)))
      (place 0 21 (block.foldl compute r3) c (drawn bus m (5 * (row + 1)))) :=
    reaches_block code inv' block (by decide) rfl
  generalize fold : block.foldl compute r3 = r4 at bump
  have regs4 : RowRegs r4 (row + 1) := by
    rw [← fold]
    constructor
    · simp [block, compute, regs3.x1]
    · rw [BitVec.ofNat_add]
      simp [block, compute, ImmOp.reg, RegOp.value, RegOp.mnemonic, Mnemonic.value, regs3.x2]
    · simp [block, compute, regs3.x8]
    · simp [block, compute, regs3.x9]
  refine ⟨_, head.trans (ready.trans (words.trans (bump.trans ?_))), r4, rfl, regs4⟩
  have get : program[21]? = some (.branch .blt 2 9 0xFDE) := rfl
  have test : BranchOp.taken .blt (r4.read 2) (r4.read 9) = decide (row + 1 < 120) := by
    rw [show r4.read 2 = _ from regs4.x2, show r4.read 9 = BitVec.ofNat 32 120 from regs4.x9]
    exact taken_blt (by omega) (by decide)
  split_ifs with more
  · exact reaches_taken code inv' get (by rw [test]; simpa using more) (by decide)
  · exact reaches_not_taken code inv' get (by rw [test]; simpa using more)

/-- From its first instruction the program gets to its last, a jump to itself, with the 600 words
of the picture stored in order and nothing else. -/
theorem checkerboard_draws (code : CodeAt bus 0 program I)
    (keeps : ∀ k ≤ 600, I (drawn bus m k)) (r : Regs) :
    ∃ r' n, ∀ k, (place 0 0 r c m).after csrs bus (n + k) =
      some (place 0 22 r' c (drawn bus m 600)) := by
  have inv : I m := keeps 0 (by omega)
  let block : List Instr :=
    [.lui 1 0x20001, .imm .addi 2 0 0, .imm .addi 9 0 120, .imm .addi 8 0 5]
  have setup : Reaches csrs bus (place 0 0 r c m) (place 0 4 (block.foldl compute r) c m) :=
    reaches_block code inv block (by decide) rfl
  have first : InRows bus c m 0 (place 0 4 (block.foldl compute r) c m) := by
    refine ⟨_, rfl, ?_⟩
    constructor <;> simp [block, compute, ImmOp.reg, RegOp.value, RegOp.mnemonic, Mnemonic.value]
  obtain ⟨_, rows, r', rfl, -⟩ := Reaches.loop
    (fun row line _ => reaches_next_row csrs code keeps line) first
  obtain ⟨n, here⟩ := (setup.trans rows).after
  exact ⟨r', n, after_self (step_self code (keeps 600 le_rfl) rfl) here⟩

end Run

end RiscvSoc.Firmware.Checkerboard
