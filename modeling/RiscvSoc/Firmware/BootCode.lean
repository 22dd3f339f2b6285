/- GID: RiscvSoc/Firmware/BootCode
   generality: G
   utility: main
   digest: The machine code of the bootloader, routine by routine, on a bus with a UART. -/

import RiscvSoc.Cpu.IsaStep
import RiscvSoc.Firmware.Containment
import RiscvSoc.Isa.Rv32Program

set_option autoImplicit false
set_option relaxedAutoImplicit false

namespace RiscvSoc.Firmware.BootCode

open RiscvSoc.Cpu.Decoder (Word)
open RiscvSoc.Cpu.Datapath (storeData storeMask ldExtracted)
open RiscvSoc.Cpu.MemAccess (loadFlags storeFlags)
open RiscvSoc.Isa.Rv32Alu
open RiscvSoc.Isa.Rv32Instr
open RiscvSoc.Isa.Rv32Hart
open RiscvSoc.Isa.Rv32Program
open RiscvSoc.Memory.ByteLanes
open RiscvSoc.Memory.ByteMemory
open RiscvSoc.Memory.DpRam
open RiscvSoc.Fpga.RiscvTop
open RiscvSoc.Firmware.Bootloader
open RiscvSoc.Firmware.Containment (bootWords Fits Reads Sound sound_run inProgram_of_counts)

section Program

/-- The words of `bootloader.mif`, up to the first of the zeros that fill it. -/
def words : List Word := [
  0x00004137, 0xFFC10113, 0x100001B7, 0x0AA00513, 0x0B0000EF,
  0x0C0000EF, 0x00050A13, 0x0B8000EF, 0x00851513, 0x00AA6A33,
  0x0AC000EF, 0x01051513, 0x00AA6A33, 0x0A0000EF, 0x01851513, 0x00AA6A33,
  0x00001AB7, 0x000A0B13, 0x00000B93,
  0x040B0863, 0x084000EF, 0x00ABCBB3, 0x00050C13,
  0x078000EF, 0x00ABCBB3, 0x00851513, 0x00AC6C33,
  0x068000EF, 0x00ABCBB3, 0x01051513, 0x00AC6C33,
  0x058000EF, 0x00ABCBB3, 0x01851513, 0x00AC6C33,
  0x018AA023, 0x004A8A93, 0xFFCB0B13, 0xFB5FF06F,
  0x038000EF, 0x01751A63, 0x0BB00513, 0x018000EF, 0x00001237, 0x00020067,
  0x0EE00513, 0x008000EF, 0x0000006F,
  0x0081A203, 0x00127213, 0xFE021CE3, 0x00A1A023, 0x00008067,
  0x001E8337, 0x48030313, 0x0081A203, 0x00227213, 0x00021863, 0xFFF30313, 0xF0030AE3, 0xFEDFF06F,
  0x0041A503, 0x00008067]

/-- `bootloader.asm`. -/
def program : List Instr := [
  -- _start
  .lui 2 0x4, .imm .addi 2 2 0xFFC, .lui 3 0x10000, .imm .addi 10 0 0xAA, .jal 1 0x58,
  .jal 1 0x60, .imm .addi 20 10 0, .jal 1 0x5C, .shift .slli 10 10 8, .reg .or 20 20 10,
  .jal 1 0x56, .shift .slli 10 10 16, .reg .or 20 20 10,
  .jal 1 0x50, .shift .slli 10 10 24, .reg .or 20 20 10,
  .lui 21 0x1, .imm .addi 22 20 0, .imm .addi 23 0 0,
  -- recv_loop
  .branch .beq 22 0 0x28, .jal 1 0x42, .reg .xor 23 23 10, .imm .addi 24 10 0,
  .jal 1 0x3C, .reg .xor 23 23 10, .shift .slli 10 10 8, .reg .or 24 24 10,
  .jal 1 0x34, .reg .xor 23 23 10, .shift .slli 10 10 16, .reg .or 24 24 10,
  .jal 1 0x2C, .reg .xor 23 23 10, .shift .slli 10 10 24, .reg .or 24 24 10,
  .store .sw 21 24 0, .imm .addi 21 21 4, .imm .addi 22 22 0xFFC, .jal 0 0xFFFDA,
  -- recv_done
  .jal 1 0x1C, .branch .bne 10 23 0xA, .imm .addi 10 0 0xBB, .jal 1 0xC, .lui 4 0x1,
  .jalr 0 4 0,
  -- boot_error
  .imm .addi 10 0 0xEE, .jal 1 0x4, .jal 0 0,
  -- uart_tx_byte
  .load .lw 4 3 8, .imm .andi 4 4 1, .branch .bne 4 0 0xFFC, .store .sw 3 10 0, .jalr 0 1 0,
  -- uart_rx_byte
  .lui 6 0x1E8, .imm .addi 6 6 0x480, .load .lw 4 3 8, .imm .andi 4 4 2, .branch .bne 4 0 8,
  .imm .addi 6 6 0xFFF, .branch .beq 6 0 0xF8A, .jal 0 0xFFFF6,
  .load .lw 10 3 4, .jalr 0 1 0]

theorem decode_words : words.map decode = program.map some := by decide

end Program

section Bus

/-- What the UART shows on one load: its STATUS bits and its data register. -/
structure Answer where
  busy : Bool
  done : Bool
  data : Byte

/-- BRAM, the loads the UART has answered, and the bytes it was given. -/
structure BootMem where
  mem : BramAddr → Word
  loads : ℕ
  tx : List Byte

def Answer.word (a : Answer) (reg : BitVec 2) : Word :=
  if reg = 0b01 then a.data.setWidth 32
  else if reg = 0b10 then (BitVec.ofBool a.done ++ BitVec.ofBool a.busy).setWidth 32
  else 0

/-- The word on `ld_data`. -/
def BootMem.ldWord (uart : ℕ → Answer) (m : BootMem) (a : Word) : Word :=
  if inBram a then m.mem (wordIndex a)
  else if inUart a then (uart m.loads).word (regIndex a)
  else 0

/-- The decode of `riscv_top`, with a UART that gives its answers one load after the other. -/
def bootBus (uart : ℕ → Answer) : Bus BootMem where
  fetch := fun m a => m.mem (wordIndex a)
  loaded := fun m o a =>
    ldExtracted (loadFlags o).isLb (loadFlags o).isLh (loadFlags o).isLbu (loadFlags o).isLhu
      (a.extractLsb' 0 2) (m.ldWord uart a)
  access := fun m x =>
    match x with
    | .load _ a => { m with loads := if inUart a then m.loads + 1 else m.loads }
    | .store o a v =>
      let data := storeData v (a.extractLsb' 0 2)
      let mask := storeMask (storeFlags o).isSb (storeFlags o).isSh (storeFlags o).isSw
        (a.extractLsb' 0 2)
      { m with
        mem := if inBram a then writeMasked m.mem (wordIndex a) data mask else m.mem
        tx := if inUart a && regIndex a == 0b00 then m.tx ++ [data.extractLsb' 0 8] else m.tx }

end Bus

section Routines

variable {σ : Type} (csrs : CsrSpace σ) (c : σ) {uart : ℕ → Answer}
variable {mem : BramAddr → Word} {n : ℕ} {tx : List Byte} {r : Regs}

/-- The program is in place in every memory that keeps the first words of `code`. -/
def Keeps (code : BramAddr → Word) (m : BootMem) : Prop :=
  ∀ a : BramAddr, a.toNat < bootWords → m.mem a = code a

/-- It does not look at the UART. -/
theorem Keeps.at {code : BramAddr → Word} (keeps : Keeps code ⟨mem, n, tx⟩) (k : ℕ)
    (sent : List Byte) : Keeps code ⟨mem, k, sent⟩ := keeps

def SameBut (changed : List (BitVec 5)) (r r' : Regs) : Prop :=
  ∀ i, i ∉ changed → r'.read i = r.read i

theorem SameBut.trans {d : List (BitVec 5)} {r r' r'' : Regs} (first : SameBut d r r')
    (last : SameBut d r' r'') : SameBut d r r'' := fun i out => (last i out).trans (first i out)

theorem SameBut.set {d : List (BitVec 5)} {r r' : Regs} (same : SameBut d r r') {j : BitVec 5}
    (inside : j ∈ d) (v : Word) : SameBut d r (r'.set j v) := by
  intro i out
  have other : i ≠ j := by
    rintro rfl
    exact out inside
  rw [Regs.set_read_other other]
  exact same i out

theorem SameBut.mono {d e : List (BitVec 5)} {r r' : Regs} (same : SameBut d r r')
    (le : ∀ i ∈ d, i ∈ e) : SameBut e r r' := fun i out => same i fun inside => out (le i inside)

theorem SameBut.refl (d : List (BitVec 5)) (r : Regs) : SameBut d r r := fun _ _ => rfl

private theorem tx_store (v : Word) :
    (bootBus uart).access ⟨mem, n, tx⟩ (.store .sw 0x10000000 v) =
      ⟨mem, n, tx ++ [v.extractLsb' 0 8]⟩ := by
  have whole : storeData v 0 = v := BitVec.shiftLeft_zero v
  change BootMem.mk _ _ (tx ++ [(storeData v 0).extractLsb' 0 8]) = _
  rw [whole]
  rfl

private theorem busy_bit (a : Answer) : (a.word 0b10 &&& 1#32 = 0#32) ↔ a.busy = false := by
  change ((BitVec.ofBool a.done ++ BitVec.ofBool a.busy).setWidth 32 &&& 1#32 = 0#32) ↔ _
  cases a.done <;> cases a.busy <;> decide

private theorem done_bit (a : Answer) : (a.word 0b10 &&& 2#32 = 0#32) ↔ a.done = false := by
  change ((BitVec.ofBool a.done ++ BitVec.ofBool a.busy).setWidth 32 &&& 2#32 = 0#32) ↔ _
  cases a.done <;> cases a.busy <;> decide

variable {code : BramAddr → Word}
variable (at0 : CodeAt (bootBus uart) 0 program (Keeps code))
include at0

private theorem reaches_poll (keeps : Keeps code ⟨mem, n, tx⟩) (base : r.read 3#5 = 0x10000000#32)
    {k : ℕ}
    (mask : BitVec 12) (load : program[k]? = some (.load .lw 4 3 8))
    (test : [.imm .andi 4 4 mask] <+: program.drop (k + 1)) :
    ∃ r', Reaches csrs (bootBus uart) (place 0 k r c ⟨mem, n, tx⟩)
        (place 0 (k + 2) r' c ⟨mem, n + 1, tx⟩) ∧
      r'.read 4#5 = (uart n).word 0b10 &&& mask.signExtend 32 ∧ SameBut [4] r r' := by
  have first : Reaches csrs (bootBus uart) (place 0 k r c ⟨mem, n, tx⟩)
      (place 0 (k + 1) (r.set 4 ((uart n).word 0b10)) c ⟨mem, n + 1, tx⟩) :=
    reaches_load at0 keeps load (a := 0x10000008) (by simp [base]) rfl
  let block : List Instr := [.imm .andi 4 4 mask]
  have second : Reaches csrs (bootBus uart)
      (place 0 (k + 1) (r.set 4 ((uart n).word 0b10)) c ⟨mem, n + 1, tx⟩)
      (place 0 (k + 2) (block.foldl compute (r.set 4 ((uart n).word 0b10))) c ⟨mem, n + 1, tx⟩) :=
    reaches_block at0 (keeps.at _ _) block test rfl
  refine ⟨_, first.trans second, ?_, ?_⟩
  · simp [block, compute, ImmOp.reg, RegOp.value, RegOp.mnemonic, Mnemonic.value]
  · exact ((SameBut.refl [4] r).set (by decide) _).set (by decide) _

private theorem reaches_return (keeps : Keeps code ⟨mem, n, tx⟩) {k l : ℕ}
    (get : program[k]? = some (.jalr 0 1 0)) (ra : r.read 1#5 = addr 0 l) :
    Reaches csrs (bootBus uart) (place 0 k r c ⟨mem, n, tx⟩) (place 0 l r c ⟨mem, n, tx⟩) := by
  have target : (r.read 1 + (0 : BitVec 12).signExtend 32) &&& ~~~1 = addr 0 l := by
    rw [show r.read 1 = addr 0 l from ra]
    exact (congrArg (· &&& ~~~1#32) (BitVec.add_zero _)).trans (addr_even rfl l)
  have jump : Reaches csrs (bootBus uart) (place 0 k r c ⟨mem, n, tx⟩)
      (place 0 l (r.set 0 (addr 0 (k + 1))) c ⟨mem, n, tx⟩) := reaches_jalr at0 keeps get target
  rwa [show r.set 0 (addr 0 (k + 1)) = r from Regs.set_zero] at jump

/-- `uart_tx_byte` waits until the UART is free, hands it x10 and returns. -/
theorem reaches_tx (keeps : Keeps code ⟨mem, n, tx⟩) (base : r.read 3#5 = 0x10000000#32) {k l : ℕ}
    (ra : r.read 1#5 = addr 0 l) (wait : ∀ j < k, (uart (n + j)).busy = true)
    (free : (uart (n + k)).busy = false) :
    ∃ r', Reaches csrs (bootBus uart) (place 0 48 r c ⟨mem, n, tx⟩)
        (place 0 l r' c ⟨mem, n + k + 1, tx ++ [(r.read 10#5).extractLsb' 0 8]⟩) ∧
      SameBut [4] r r' := by
  have test : [.imm .andi 4 4 1] <+: program.drop (48 + 1) := by decide
  have branch : program[50]? = some (.branch .bne 4 0 0xFFC) := rfl
  have around : ∀ j < k, ∀ s, (∃ r', s = place 0 48 r' c ⟨mem, n + j, tx⟩ ∧ SameBut [4] r r') →
      ∃ t, Reaches csrs (bootBus uart) s t ∧
        ∃ r', t = place 0 48 r' c ⟨mem, n + (j + 1), tx⟩ ∧ SameBut [4] r r' := by
    rintro j less _ ⟨r1, rfl, same⟩
    obtain ⟨r2, poll, x4, same2⟩ := reaches_poll csrs c at0
      (keeps.at (n + j) tx) ((same 3 (by decide)).trans base) 1 rfl test
    refine ⟨_, poll.trans (reaches_taken at0 (keeps.at _ _) branch ?_ (by decide)), r2, rfl,
      same.trans same2⟩
    have busy := mt (busy_bit (uart (n + j))).mp (by simp [wait j less])
    simpa [BranchOp.taken, x4] using busy
  obtain ⟨_, waits, r1, rfl, same1⟩ := Reaches.loop around ⟨r, rfl, SameBut.refl _ _⟩
  obtain ⟨r2, poll, x4, same2⟩ := reaches_poll csrs c at0
    (keeps.at (n + k) tx) ((same1 3 (by decide)).trans base) 1 rfl test
  have same := same1.trans same2
  have go : Reaches csrs (bootBus uart) (place 0 50 r2 c ⟨mem, n + k + 1, tx⟩)
      (place 0 51 r2 c ⟨mem, n + k + 1, tx⟩) := by
    refine reaches_not_taken at0 (keeps.at _ _) branch ?_
    have idle := (busy_bit (uart (n + k))).mpr free
    simpa [BranchOp.taken, x4] using idle
  have store : Reaches csrs (bootBus uart) (place 0 51 r2 c ⟨mem, n + k + 1, tx⟩)
      (place 0 52 r2 c ⟨mem, n + k + 1, tx ++ [(r.read 10#5).extractLsb' 0 8]⟩) := by
    have get : program[51]? = some (.store .sw 3 10 0) := rfl
    have x10 : r2.read 10#5 = r.read 10#5 := same 10 (by decide)
    have put := @tx_store uart mem (n + k + 1) tx (r2.read 10#5)
    rw [← x10, ← put]
    refine reaches_store at0 (keeps.at _ _) get ?_ rfl
    rw [show r2.read 3 = 0x10000000#32 from (same 3 (by decide)).trans base]
    rfl
  refine ⟨r2, waits.trans (poll.trans (go.trans (store.trans ?_))), same⟩
  have last : program[52]? = some (.jalr 0 1 0) := rfl
  exact reaches_return csrs c at0 (keeps.at _ _) last ((same 1 (by decide)).trans ra)

private theorem reaches_empty (keeps : Keeps code ⟨mem, n, tx⟩) (base : r.read 3#5 = 0x10000000#32)
    {left : ℕ} (small : left < 2 ^ 32) (x6 : r.read 6#5 = BitVec.ofNat 32 (left + 1))
    (empty : (uart n).done = false) :
    ∃ r', Reaches csrs (bootBus uart) (place 0 55 r c ⟨mem, n, tx⟩)
        (place 0 (if left = 0 then 0 else 55) r' c ⟨mem, n + 1, tx⟩) ∧
      r'.read 6#5 = BitVec.ofNat 32 left ∧ SameBut [4, 6] r r' := by
  obtain ⟨r1, poll, x4, same1⟩ := reaches_poll csrs c at0 keeps base 2
    (show program[55]? = some (.load .lw 4 3 8) from rfl) (by decide)
  have stay : Reaches csrs (bootBus uart) (place 0 57 r1 c ⟨mem, n + 1, tx⟩)
      (place 0 58 r1 c ⟨mem, n + 1, tx⟩) := by
    have get : program[57]? = some (.branch .bne 4 0 8) := rfl
    refine reaches_not_taken at0 (keeps.at _ _) get ?_
    have none := (done_bit (uart n)).mpr empty
    simpa [BranchOp.taken, x4] using none
  let block : List Instr := [.imm .addi 6 6 0xFFF]
  have count : Reaches csrs (bootBus uart) (place 0 58 r1 c ⟨mem, n + 1, tx⟩)
      (place 0 59 (block.foldl compute r1) c ⟨mem, n + 1, tx⟩) :=
    reaches_block at0 (keeps.at _ _) block (by decide) rfl
  have fewer : (block.foldl compute r1).read 6#5 = BitVec.ofNat 32 left := by
    have before : r1.read 6#5 = BitVec.ofNat 32 left + 1#32 :=
      ((same1 6 (by decide)).trans x6).trans (BitVec.ofNat_add left 1)
    have back : BitVec.ofNat 32 left + 1#32 + 0xFFFFFFFF#32 = BitVec.ofNat 32 left := by
      rw [BitVec.add_assoc]
      exact BitVec.add_zero _
    simpa [block, compute, ImmOp.reg, RegOp.value, RegOp.mnemonic, Mnemonic.value, before]
      using back
  have same : SameBut [4, 6] r (block.foldl compute r1) :=
    (same1.mono (by decide)).set (by decide) _
  refine ⟨_, poll.trans (stay.trans (count.trans ?_)), fewer, same⟩
  have get : program[59]? = some (.branch .beq 6 0 0xF8A) := rfl
  by_cases last : left = 0
  · rw [if_pos last]
    refine reaches_taken at0 (keeps.at _ _) get ?_ (by decide)
    have zero : (block.foldl compute r1).read 6#5 = 0#32 := by rw [fewer, last]
    simp [BranchOp.taken, zero]
  · rw [if_neg last]
    have nonzero : BitVec.ofNat 32 left ≠ 0#32 := by
      intro zero
      have value := congrArg BitVec.toNat zero
      rw [BitVec.toNat_ofNat, Nat.mod_eq_of_lt small] at value
      exact last value
    have past : Reaches csrs (bootBus uart)
        (place 0 59 (block.foldl compute r1) c ⟨mem, n + 1, tx⟩)
        (place 0 60 (block.foldl compute r1) c ⟨mem, n + 1, tx⟩) := by
      refine reaches_not_taken at0 (keeps.at _ _) get ?_
      rw [show (block.foldl compute r1).read 6 = _ from fewer]
      simpa [BranchOp.taken] using nonzero
    have again : program[60]? = some (.jal 0 0xFFFF6) := rfl
    have jump : Reaches csrs (bootBus uart)
        (place 0 60 (block.foldl compute r1) c ⟨mem, n + 1, tx⟩)
        (place 0 55 ((block.foldl compute r1).set 0 (addr 0 61)) c ⟨mem, n + 1, tx⟩) :=
      reaches_jal at0 (keeps.at _ _) again (by decide)
    rw [show (block.foldl compute r1).set 0 (addr 0 61) = _ from Regs.set_zero] at jump
    exact past.trans jump

private theorem reaches_polls (keeps : Keeps code ⟨mem, n, tx⟩) (base : r.read 3#5 = 0x10000000#32)
    {k : ℕ}
    (small : k < 2000000) (empty : ∀ j < k, (uart (n + j)).done = false) :
    ∃ r', Reaches csrs (bootBus uart) (place 0 53 r c ⟨mem, n, tx⟩)
        (place 0 55 r' c ⟨mem, n + k, tx⟩) ∧
      r'.read 6#5 = BitVec.ofNat 32 (2000000 - k) ∧ SameBut [4, 6] r r' := by
  let block : List Instr := [.lui 6 0x1E8, .imm .addi 6 6 0x480]
  have setup : Reaches csrs (bootBus uart) (place 0 53 r c ⟨mem, n, tx⟩)
      (place 0 55 (block.foldl compute r) c ⟨mem, n, tx⟩) :=
    reaches_block at0 keeps block (by decide) rfl
  have around : ∀ j < k, ∀ s,
      (∃ r', s = place 0 55 r' c ⟨mem, n + j, tx⟩ ∧
        r'.read 6#5 = BitVec.ofNat 32 (2000000 - j) ∧ SameBut [4, 6] r r') →
      ∃ t, Reaches csrs (bootBus uart) s t ∧ ∃ r', t = place 0 55 r' c ⟨mem, n + (j + 1), tx⟩ ∧
        r'.read 6#5 = BitVec.ofNat 32 (2000000 - (j + 1)) ∧ SameBut [4, 6] r r' := by
    rintro j less _ ⟨r1, rfl, x6, same⟩
    have left : 2000000 - j = 2000000 - (j + 1) + 1 := by omega
    rw [left] at x6
    obtain ⟨r2, poll, x6', same2⟩ := reaches_empty csrs c at0 (keeps.at (n + j) tx)
      ((same 3 (by decide)).trans base) (by omega) x6 (empty j less)
    rw [if_neg (by omega)] at poll
    exact ⟨_, poll, r2, rfl, x6', same.trans same2⟩
  obtain ⟨_, polls, r1, rfl, x6, same⟩ := Reaches.loop around
    ⟨block.foldl compute r, rfl,
      by simp [block, compute, ImmOp.reg, RegOp.value, RegOp.mnemonic, Mnemonic.value],
      ((SameBut.refl [4, 6] r).set (by decide) _).set (by decide) _⟩
  exact ⟨r1, setup.trans polls, x6, same⟩

/-- `uart_rx_byte` returns the first byte it finds within the timeout in x10. -/
theorem reaches_rx_byte (keeps : Keeps code ⟨mem, n, tx⟩) (base : r.read 3#5 = 0x10000000#32)
    {k l : ℕ} (ra : r.read 1#5 = addr 0 l) (small : k < 2000000)
    (empty : ∀ j < k, (uart (n + j)).done = false) (ready : (uart (n + k)).done = true) :
    ∃ r', Reaches csrs (bootBus uart) (place 0 53 r c ⟨mem, n, tx⟩)
        (place 0 l r' c ⟨mem, n + k + 2, tx⟩) ∧
      r'.read 10#5 = (uart (n + k + 1)).data.setWidth 32 ∧ SameBut [4, 6, 10] r r' := by
  obtain ⟨r1, polls, -, same1⟩ := reaches_polls csrs c at0 keeps base small empty
  obtain ⟨r2, poll, x4, same2⟩ := reaches_poll csrs c at0 (keeps.at (n + k) tx)
    ((same1 3 (by decide)).trans base) 2 (show program[55]? = some (.load .lw 4 3 8) from rfl)
    (by decide)
  have same : SameBut [4, 6] r r2 := same1.trans (same2.mono (by decide))
  have found : Reaches csrs (bootBus uart) (place 0 57 r2 c ⟨mem, n + k + 1, tx⟩)
      (place 0 61 r2 c ⟨mem, n + k + 1, tx⟩) := by
    have get : program[57]? = some (.branch .bne 4 0 8) := rfl
    refine reaches_taken at0 (keeps.at _ _) get ?_ (by decide)
    have some := mt (done_bit (uart (n + k))).mp (by simp [ready])
    simpa [BranchOp.taken, x4] using some
  have load : Reaches csrs (bootBus uart) (place 0 61 r2 c ⟨mem, n + k + 1, tx⟩)
      (place 0 62 (r2.set 10 ((uart (n + k + 1)).data.setWidth 32)) c ⟨mem, n + k + 2, tx⟩) := by
    have get : program[61]? = some (.load .lw 10 3 4) := rfl
    have from3 : r2.read 3#5 = 0x10000000#32 := (same 3 (by decide)).trans base
    exact reaches_load at0 (keeps.at _ _) get (a := 0x10000004) (by simp [from3]) rfl
  have last : program[62]? = some (.jalr 0 1 0) := rfl
  have link : (r2.set 10 ((uart (n + k + 1)).data.setWidth 32)).read 1#5 = addr 0 l := by
    rw [Regs.set_read_other (by decide)]
    exact (same 1 (by decide)).trans ra
  refine ⟨_, polls.trans (poll.trans (found.trans (load.trans
    (reaches_return csrs c at0 (keeps.at _ _) last link)))), ?_, ?_⟩
  · exact Regs.set_read_same (by decide)
  · exact (same.mono (by decide)).set (by decide) _

/-- With nothing to find it goes back to `_start`. -/
theorem reaches_rx_timeout (keeps : Keeps code ⟨mem, n, tx⟩) (base : r.read 3#5 = 0x10000000#32)
    (empty : ∀ j < 2000000, (uart (n + j)).done = false) :
    ∃ r', Reaches csrs (bootBus uart) (place 0 53 r c ⟨mem, n, tx⟩)
        (place 0 0 r' c ⟨mem, n + 2000000, tx⟩) ∧ SameBut [4, 6] r r' := by
  obtain ⟨r1, polls, x6, same1⟩ := reaches_polls csrs c at0 keeps base
    (show 1999999 < 2000000 by decide) fun j less => empty j (by omega)
  obtain ⟨r2, poll, -, same2⟩ := reaches_empty csrs c at0 (keeps.at (n + 1999999) tx)
    ((same1 3 (by decide)).trans base) (show 0 < 2 ^ 32 by decide) x6 (empty 1999999 (by decide))
  rw [if_pos rfl] at poll
  exact ⟨r2, polls.trans poll, same1.trans same2⟩

end Routines

end RiscvSoc.Firmware.BootCode
