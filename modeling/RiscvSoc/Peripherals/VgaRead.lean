/- GID: RiscvSoc/Peripherals/VgaRead
   generality: G
   utility: support
   digest: The CPU side of the framebuffer's buffers: writes, and reads two edges behind. -/

import RiscvSoc.Peripherals.VgaFramebuffer

set_option autoImplicit false
set_option relaxedAutoImplicit false

namespace RiscvSoc.Peripherals.VgaRead

open RiscvSoc.Cpu.Decoder
open RiscvSoc.Peripherals.VgaFramebuffer

/-- The words of a physical buffer. -/
def bufMem (b : Bool) (s : VgaRegs) : ℕ → Word := if b then s.buf1.mem else s.buf0.mem

/-- The physical buffer behind the draw addresses, or behind the peek addresses. -/
def bufSel (peek : Bool) (s : VgaRegs) : Bool := if peek then s.peekBufSel else s.drawBufSel

/-- The word `w` of the buffer that the draw or the peek addresses select. -/
def selWord (peek : Bool) (s : VgaRegs) (w : ℕ) : Word := bufMem (bufSel peek s) s w

variable {clkDiv : ℕ} {s : VgaRegs} {i j : VgaIn}

section Write

theorem bufMem_posedge (b : Bool) :
    bufMem b (s.posedge clkDiv i) =
      if VgaRegs.isDrawWrite i && s.drawBufSel == b then
        Function.update (bufMem b s) (VgaRegs.cpuWordAddr i.addr) i.wdata
      else bufMem b s := by
  cases b <;>
    simp [bufMem, VgaRegs.posedge, SyncRam.posedge, VgaRegs.buf0WeCpu, VgaRegs.buf1WeCpu]

/-- An edge without a draw write changes neither buffer. -/
theorem bufMem_quiet (quiet : VgaRegs.isDrawWrite i = false) (b : Bool) :
    bufMem b (s.posedge clkDiv i) = bufMem b s := by
  rw [bufMem_posedge, quiet, Bool.false_and, if_neg Bool.false_ne_true]

/-- An edge changes at most the word on the address. -/
theorem bufMem_other {w : ℕ}
    (other : VgaRegs.isDrawWrite i = true → VgaRegs.cpuWordAddr i.addr ≠ w) (b : Bool) :
    bufMem b (s.posedge clkDiv i) w = bufMem b s w := by
  rw [bufMem_posedge]
  split_ifs with write
  · simp only [Bool.and_eq_true] at write
    exact Function.update_of_ne (other write.1).symm _ _
  · rfl

/-- A draw write goes to the buffer that draw_buf_sel shows at the edge. -/
theorem bufMem_drawn (write : VgaRegs.isDrawWrite i = true) :
    bufMem s.drawBufSel (s.posedge clkDiv i) (VgaRegs.cpuWordAddr i.addr) = i.wdata := by
  rw [bufMem_posedge, write, Bool.true_and, if_pos (by simp)]
  exact Function.update_self _ _ _

end Write

section Read

/-- A read strobe on a word of the draw or of the peek buffer. -/
structure Reads (i : VgaIn) (peek : Bool) (w : ℕ) : Prop where
  go : i.rst = false
  sel : i.sel = true
  re : i.re = true
  region : i.addr.extractLsb' 12 4 = if peek then 0x2 else 0x1
  word : VgaRegs.bufWordAddr i.addr = w
  bound : w < bufWords

private theorem Reads.valid {peek : Bool} {w : ℕ} (reads : Reads i peek w) :
    VgaRegs.bufWordAddrValid i.addr = true := by
  rw [VgaRegs.bufWordAddrValid, reads.word]
  exact decide_eq_true reads.bound

private theorem Reads.cpuWordAddr {peek : Bool} {w : ℕ} (reads : Reads i peek w) :
    VgaRegs.cpuWordAddr i.addr = w := by
  rw [VgaRegs.cpuWordAddr, if_pos reads.valid, reads.word]

private theorem readMux_posedge {peek : Bool} {w : ℕ} (reads : Reads i peek w) :
    (s.posedge clkDiv i).readMux = selWord peek s w := by
  have sel : (s.posedge clkDiv i).selD = true := by simp [VgaRegs.posedge, reads.go, reads.sel]
  have re : (s.posedge clkDiv i).reD = true := by simp [VgaRegs.posedge, reads.go, reads.re]
  have addr : (s.posedge clkDiv i).addrD = i.addr := by simp [VgaRegs.posedge, reads.go]
  have valid : (s.posedge clkDiv i).bufWordAddrValidD = true := by
    simp [VgaRegs.posedge, reads.go, reads.valid]
  have draw : (s.posedge clkDiv i).drawBufSelD = s.drawBufSel := by
    simp [VgaRegs.posedge, reads.go]
  have behind : (s.posedge clkDiv i).peekBufSelD = s.peekBufSel := by
    simp [VgaRegs.posedge, reads.go]
  have data0 : (s.posedge clkDiv i).buf0.doutA = s.buf0.mem w := by
    rw [← reads.cpuWordAddr]
    rfl
  have data1 : (s.posedge clkDiv i).buf1.doutA = s.buf1.mem w := by
    rw [← reads.cpuWordAddr]
    rfl
  rw [VgaRegs.readMux, sel, re, addr, reads.region, valid, draw, behind, data0, data1, selWord,
    bufMem, bufSel]
  cases peek with
  | false => cases s.drawBufSel <;> rfl
  | true => cases s.peekBufSel <;> rfl

/-- A second edge brings it to rdata. -/
theorem rdata_posedge {peek : Bool} {w : ℕ} (reads : Reads i peek w) (go : j.rst = false) :
    ((s.posedge clkDiv i).posedge clkDiv j).rdata = selWord peek s w := by
  rw [← @readMux_posedge clkDiv s i peek w reads]
  simp [VgaRegs.posedge, go]

end Read

end RiscvSoc.Peripherals.VgaRead
