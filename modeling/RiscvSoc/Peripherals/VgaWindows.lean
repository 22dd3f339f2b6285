/- GID: RiscvSoc/Peripherals/VgaWindows
   generality: G
   utility: main
   digest: The draw and the peek window as two separate memories under arbitrary bus traffic. -/

import RiscvSoc.Peripherals.VgaRead
import RiscvSoc.Peripherals.VgaSwap

set_option autoImplicit false
set_option relaxedAutoImplicit false

namespace RiscvSoc.Peripherals.VgaWindows

open RiscvSoc.Clocked.Trajectory
open RiscvSoc.Cpu.Decoder
open RiscvSoc.Peripherals.VgaFramebuffer
open RiscvSoc.Peripherals.VgaRead
open RiscvSoc.Peripherals.VgaSwap

/-- A read of the draw or the peek window, with sel, re and addr held for two edges out of reset.
What the bus writes meanwhile is left open. -/
structure HeldRead (peek : Bool) (i j : VgaIn) : Prop where
  go : i.rst = false ∧ j.rst = false
  sel : i.sel = true ∧ j.sel = true
  re : i.re = true ∧ j.re = true
  addr : j.addr = i.addr
  region : i.addr.extractLsb' 12 4 = if peek then 0x2 else 0x1

/-- A store into the draw window, at a word that exists. -/
structure DrawStore (w : ℕ) (i : VgaIn) : Prop where
  sel : i.sel = true
  we : i.we = true
  region : i.addr.extractLsb' 12 4 = 0x1
  word : VgaRegs.bufWordAddr i.addr = w
  bound : w < bufWords

variable {clkDiv : ℕ} {s : VgaRegs} {i j : VgaIn} {peek : Bool} {w : ℕ}

section Write

private theorem DrawStore.valid (store : DrawStore w i) :
    VgaRegs.bufWordAddrValid i.addr = true := by
  rw [VgaRegs.bufWordAddrValid, store.word]
  exact decide_eq_true store.bound

private theorem DrawStore.isDrawWrite (store : DrawStore w i) : VgaRegs.isDrawWrite i = true := by
  simp [VgaRegs.isDrawWrite, store.sel, store.we, store.region, store.valid]

private theorem DrawStore.cpuWordAddr (store : DrawStore w i) : VgaRegs.cpuWordAddr i.addr = w := by
  rw [VgaRegs.cpuWordAddr, if_pos store.valid, store.word]

private theorem drawStore_of_isDrawWrite (write : VgaRegs.isDrawWrite i = true) :
    DrawStore (VgaRegs.bufWordAddr i.addr) i := by
  simp only [VgaRegs.isDrawWrite, Bool.and_eq_true, beq_iff_eq] at write
  obtain ⟨⟨⟨sel, we⟩, region⟩, valid⟩ := write
  exact ⟨sel, we, region, rfl, of_decide_eq_true valid⟩

private theorem bufMem_drawStore (store : DrawStore w i) (b : Bool) :
    bufMem b (s.posedge clkDiv i) =
      if s.drawBufSel = b then Function.update (bufMem b s) w i.wdata else bufMem b s := by
  rw [bufMem_posedge, store.isDrawWrite, store.cpuWordAddr]
  simp only [Bool.true_and, beq_iff_eq]

private theorem bufMem_elsewhere (elsewhere : i.addr.extractLsb' 12 4 ≠ 0x1 ∨
    bufWords ≤ VgaRegs.bufWordAddr i.addr) (b : Bool) :
    bufMem b (s.posedge clkDiv i) = bufMem b s := by
  apply bufMem_quiet
  apply Bool.eq_false_iff.mpr
  intro write
  have store := drawStore_of_isDrawWrite write
  rcases elsewhere with region | beyond
  · exact region store.region
  · exact absurd store.bound (by omega)

end Write

section Read

private theorem HeldRead.reads (held : HeldRead peek i j)
    (inside : VgaRegs.bufWordAddr i.addr < bufWords) :
    Reads i peek (VgaRegs.bufWordAddr i.addr) :=
  ⟨held.go.1, held.sel.1, held.re.1, held.region, rfl, inside⟩

private theorem readMux_beyond (held : HeldRead peek i j)
    (beyond : bufWords ≤ VgaRegs.bufWordAddr i.addr) : (s.posedge clkDiv i).readMux = 0 := by
  have addr : (s.posedge clkDiv i).addrD = i.addr := by simp [VgaRegs.posedge, held.go.1]
  have invalid : (s.posedge clkDiv i).bufWordAddrValidD = false := by
    simp [VgaRegs.posedge, VgaRegs.bufWordAddrValid, beyond]
  rw [VgaRegs.readMux, addr, held.region, invalid]
  cases peek <;> simp

private theorem rdata_held (held : HeldRead peek i j) :
    ((s.posedge clkDiv i).posedge clkDiv j).rdata =
      if VgaRegs.bufWordAddr i.addr < bufWords then
        selWord peek s (VgaRegs.bufWordAddr i.addr) else 0 := by
  split_ifs with inside
  · exact rdata_posedge (held.reads inside) held.go.2
  · have zero : (s.posedge clkDiv i).readMux = 0 := readMux_beyond held (by omega)
    rw [← zero]
    simp [VgaRegs.posedge, held.go.2]

end Read

/-- In every run a read of the draw or the peek window held for two edges returns the word of the
buffer that the window selected before the first edge, or zero beyond the last word, whatever else
these edges do; a draw store changes its word of the buffer then drawn into, and nothing else on
the bus changes a buffer. -/
theorem windows_are_separate_memories (clkDiv : ℕ) (s : VgaRegs) (input : ℕ → VgaIn) (n : ℕ) :
    (∀ peek, HeldRead peek (input n) (input (n + 1)) →
      (run clkDiv s input (n + 2)).rdata =
        if VgaRegs.bufWordAddr (input n).addr < bufWords then
          selWord peek (run clkDiv s input n) (VgaRegs.bufWordAddr (input n).addr) else 0) ∧
    (∀ w, DrawStore w (input n) → ∀ b,
      bufMem b (run clkDiv s input (n + 1)) =
        if (run clkDiv s input n).drawBufSel = b then
          Function.update (bufMem b (run clkDiv s input n)) w (input n).wdata
        else bufMem b (run clkDiv s input n)) ∧
    ((∀ w, ¬DrawStore w (input n)) → ∀ b,
      bufMem b (run clkDiv s input (n + 1)) = bufMem b (run clkDiv s input n)) ∧
    ((input n).addr.extractLsb' 12 4 = 0x2 ∨ bufWords ≤ VgaRegs.bufWordAddr (input n).addr →
      ∀ b, bufMem b (run clkDiv s input (n + 1)) = bufMem b (run clkDiv s input n)) := by
  refine ⟨fun peek held => rdata_held held, fun w store b => bufMem_drawStore store b,
    fun none b => ?_, fun window b => bufMem_elsewhere (window.imp_left ?_) b⟩
  · apply bufMem_quiet
    apply Bool.eq_false_iff.mpr
    exact fun write => none _ (drawStore_of_isDrawWrite write)
  · intro region
    rw [region]
    decide

def peekInput (_ : ℕ) : VgaIn where
  rst := false
  sel := true
  addr := 0x2008
  wdata := 0
  we := true
  re := true

/-- A frame start with a swap pending; buffer 0 is in front and holds fives. -/
def swapping : VgaRegs :=
  { blank with doubleBufEn := true, swapPending := true, buf0 := ⟨fun _ => 5, 0, 0⟩ }

/-- The swap lands on the first edge of the read, which returns buffer 0 all the same. -/
theorem windows_are_separate_memories_swapping : (run 2 swapping peekInput 2).rdata = 5 :=
  ((windows_are_separate_memories 2 swapping peekInput 0).1 true
    ⟨⟨rfl, rfl⟩, ⟨rfl, rfl⟩, ⟨rfl, rfl⟩, rfl, rfl⟩).trans (by decide)

end RiscvSoc.Peripherals.VgaWindows
