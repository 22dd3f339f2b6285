/- GID: RiscvSoc/Fpga/AddressMap
   generality: G
   utility: main
   digest: The storage a store address reaches, and the addresses at which devices repeat. -/

import RiscvSoc.Fpga.ReadMmio
import RiscvSoc.Peripherals.TimerTicks
import RiscvSoc.Peripherals.VgaRead

set_option autoImplicit false
set_option relaxedAutoImplicit false

namespace RiscvSoc.Fpga.AddressMap

open RiscvSoc.Clocked.Trajectory
open RiscvSoc.Cpu.Decoder
open RiscvSoc.Cpu.Datapath
open RiscvSoc.Cpu.Pipeline
open RiscvSoc.Memory.ByteLanes
open RiscvSoc.Memory.DpRam
open RiscvSoc.Peripherals.Timer
open RiscvSoc.Peripherals.TimerTicks (acks count_written en_posedge pending_posedge posedge_down
  posedge_stopped posedge_underflow reloadVal_written underflows writesReg)
open RiscvSoc.Peripherals.DebugUart (uartParams)
open RiscvSoc.Peripherals.VgaFramebuffer
open RiscvSoc.Peripherals.VgaRead (bufMem bufMem_other)
open RiscvSoc.Fpga.RiscvTop
open RiscvSoc.Fpga.ReadMmio

/-- The word an address lies in. -/
def wordOf (a : Word) : BitVec 30 := a.extractLsb' 2 30

/-- What a store can write. -/
inductive Cell where
  | bram (index : BramAddr)
  | uartTx
  | vgaCtrl
  | vgaDraw (word : ℕ)
  | timer (reg : BitVec 2)
  deriving DecidableEq

/-- The cell behind an offset of the framebuffer. VGA_CTRL is the only one that compares every
bit of its address. -/
def vgaTarget (offset : BitVec 16) : Option Cell :=
  if offset = 0x0000 then some .vgaCtrl
  else if offset.extractLsb' 12 4 = 0x1 && VgaRegs.bufWordAddrValid offset then
    some (.vgaDraw (VgaRegs.cpuWordAddr offset))
  else none

/-- The cell a store to `a` writes, if any. -/
def storeTarget (a : Word) : Option Cell :=
  if inBram a then some (.bram (wordIndex a))
  else if inUart a then if regIndex a = 0b00 then some .uartTx else none
  else if inVga a then vgaTarget (a.extractLsb' 0 16)
  else (timerTarget a).map .timer

section Fields

variable (a : Word)

theorem inBram_iff : inBram a = true ↔ a.toNat < 0x10000 := by
  simp only [inBram, beq_iff_eq, ← BitVec.toNat_inj, BitVec.extractLsb'_toNat,
    Nat.shiftRight_eq_div_pow]
  have := a.isLt
  simp
  omega

private theorem inUart_iff : inUart a = true ↔ 0x10000000 ≤ a.toNat ∧ a.toNat < 0x10000010 := by
  simp only [inUart, beq_iff_eq, ← BitVec.toNat_inj, BitVec.extractLsb'_toNat,
    Nat.shiftRight_eq_div_pow]
  have := a.isLt
  simp
  omega

theorem inVga_iff : inVga a = true ↔ 0x20000000 ≤ a.toNat ∧ a.toNat < 0x20010000 := by
  simp only [inVga, beq_iff_eq, ← BitVec.toNat_inj, BitVec.extractLsb'_toNat,
    Nat.shiftRight_eq_div_pow]
  have := a.isLt
  simp
  omega

private theorem inTimer_iff : inTimer a = true ↔ 0x30000000 ≤ a.toNat ∧ a.toNat < 0x30010000 := by
  simp only [inTimer, beq_iff_eq, ← BitVec.toNat_inj, BitVec.extractLsb'_toNat,
    Nat.shiftRight_eq_div_pow]
  have := a.isLt
  simp
  omega

private theorem regIndex_toNat : (regIndex a).toNat = a.toNat / 4 % 4 := by
  simp [regIndex, BitVec.extractLsb'_toNat, Nat.shiftRight_eq_div_pow]

theorem wordIndex_toNat : (wordIndex a).toNat = a.toNat / 4 % 4096 := by
  simp [wordIndex, BitVec.extractLsb'_toNat, Nat.shiftRight_eq_div_pow]

theorem wordOf_toNat : (wordOf a).toNat = a.toNat / 4 := by
  have := a.isLt
  simp [wordOf, BitVec.extractLsb'_toNat, Nat.shiftRight_eq_div_pow]
  omega

/-- The ranges of the decoder exclude each other. -/
theorem inUart_apart (uart : inUart a = true) : inBram a = false := by
  rw [inUart_iff] at uart
  rw [← Bool.not_eq_true, inBram_iff]
  omega

theorem inVga_apart (vga : inVga a = true) : inBram a = false ∧ inUart a = false := by
  rw [inVga_iff] at vga
  rw [← Bool.not_eq_true, ← Bool.not_eq_true, inBram_iff, inUart_iff]
  omega

private theorem inTimer_apart (timer : inTimer a = true) :
    inBram a = false ∧ inUart a = false ∧ inVga a = false := by
  rw [inTimer_iff] at timer
  rw [← Bool.not_eq_true, ← Bool.not_eq_true, ← Bool.not_eq_true, inBram_iff, inUart_iff, inVga_iff]
  omega

end Fields

section Targets

variable {a b : Word}

theorem storeTarget_bram {w : BramAddr} :
    storeTarget a = some (.bram w) ↔ inBram a = true ∧ wordIndex a = w := by
  unfold storeTarget vgaTarget
  split_ifs <;> simp_all

private theorem storeTarget_uartTx :
    storeTarget a = some .uartTx ↔ inUart a = true ∧ regIndex a = 0b00 := by
  have apart := inUart_apart a
  unfold storeTarget vgaTarget
  split_ifs <;> simp_all

theorem storeTarget_vga {c : Cell} (vga : c = .vgaCtrl ∨ ∃ w, c = .vgaDraw w) :
    storeTarget a = some c ↔ inVga a = true ∧ vgaTarget (a.extractLsb' 0 16) = some c := by
  have apart := inVga_apart a
  unfold storeTarget
  obtain rfl | ⟨w, rfl⟩ := vga <;> split_ifs <;> simp_all

theorem storeTarget_timer {r : BitVec 2} :
    storeTarget a = some (.timer r) ↔ timerTarget a = some r := by
  have apart := inTimer_apart a
  cases timer : inTimer a with
  | true => simp [storeTarget, apart timer]
  | false =>
    have none : timerTarget a = none := by simp [timerTarget, timer]
    unfold storeTarget vgaTarget
    rw [none]
    split_ifs <;> simp

private theorem timerTarget_bram (bram : inBram a = true) : timerTarget a = none := by
  have apart := inTimer_apart a
  unfold timerTarget
  split_ifs <;> simp_all

private theorem vgaTarget_ctrl :
    vgaTarget (a.extractLsb' 0 16) = some .vgaCtrl ↔ a.toNat % 65536 = 0 := by
  have low : (a.extractLsb' 0 16).toNat = a.toNat % 65536 := by simp [BitVec.extractLsb'_toNat]
  have zero : a.extractLsb' 0 16 = 0x0000 ↔ a.toNat % 65536 = 0 := by
    rw [← BitVec.toNat_inj, low]
    rfl
  rw [← zero, vgaTarget]
  split_ifs <;> simp_all

theorem vgaTarget_draw {w : ℕ} (draw : vgaTarget (a.extractLsb' 0 16) = some (.vgaDraw w)) :
    a.toNat % 65536 / 4096 = 1 ∧ a.toNat / 4 % 1024 = w := by
  have low : (a.extractLsb' 0 16).toNat = a.toNat % 65536 := by simp [BitVec.extractLsb'_toNat]
  unfold vgaTarget at draw
  split_ifs at draw with ctrl page
  · cases draw
  · simp only [Option.some.injEq, Cell.vgaDraw.injEq] at draw
    simp only [Bool.and_eq_true, decide_eq_true_eq] at page
    have top := congrArg BitVec.toNat page.1
    rw [BitVec.extractLsb'_toNat, low, Nat.shiftRight_eq_div_pow] at top
    rw [VgaRegs.cpuWordAddr, if_pos page.2, VgaRegs.bufWordAddr, BitVec.extractLsb'_toNat, low,
      Nat.shiftRight_eq_div_pow] at draw
    simp at top
    omega

private theorem timerTarget_toNat {r : BitVec 2} (target : timerTarget a = some r) :
    0x30000000 ≤ a.toNat ∧ a.toNat < 0x30010000 ∧ a.toNat / 4 % 4 = r.toNat ∧ r.toNat ≠ 3 := by
  unfold timerTarget at target
  split_ifs at target with selected
  simp only [Bool.and_eq_true, bne_iff_ne, ne_eq] at selected
  obtain rfl := Option.some.inj target
  have inside := (inTimer_iff a).mp selected.1
  refine ⟨inside.1, inside.2, (regIndex_toNat a).symm, fun three => selected.2 ?_⟩
  exact BitVec.eq_of_toNat_eq three

/-- The addresses the memory map gives to BRAM and to the timer, as far as either is there. -/
structure Documented (a : Word) : Prop where
  bram : inBram a = true → a.toNat ≤ 0x3FFF
  timer : timerTarget a ≠ none → a.toNat < 0x30000010

private theorem wordOf_injective (docA : Documented a) (docB : Documented b)
    (target : storeTarget a ≠ none) (same : storeTarget a = storeTarget b) :
    wordOf a = wordOf b := by
  obtain ⟨cell, cellA⟩ := Option.ne_none_iff_exists'.mp target
  have cellB := same.symm.trans cellA
  apply BitVec.eq_of_toNat_eq
  rw [wordOf_toNat, wordOf_toNat]
  cases cell with
  | bram w =>
    rw [storeTarget_bram] at cellA cellB
    have inA := docA.bram cellA.1
    have inB := docB.bram cellB.1
    have index := congrArg BitVec.toNat (cellA.2.trans cellB.2.symm)
    rw [wordIndex_toNat, wordIndex_toNat] at index
    omega
  | uartTx =>
    rw [storeTarget_uartTx, inUart_iff] at cellA cellB
    have index := congrArg BitVec.toNat (cellA.2.trans cellB.2.symm)
    rw [regIndex_toNat, regIndex_toNat] at index
    omega
  | vgaCtrl =>
    rw [storeTarget_vga (.inl rfl), inVga_iff, vgaTarget_ctrl] at cellA cellB
    omega
  | vgaDraw w =>
    rw [storeTarget_vga (.inr ⟨w, rfl⟩), inVga_iff] at cellA cellB
    have drawA := vgaTarget_draw cellA.2
    have drawB := vgaTarget_draw cellB.2
    omega
  | timer r =>
    rw [storeTarget_timer] at cellA cellB
    have inA := docA.timer (by rw [cellA]; exact Option.some_ne_none r)
    have inB := docB.timer (by rw [cellB]; exact Option.some_ne_none r)
    have regA := timerTarget_toNat cellA
    have regB := timerTarget_toNat cellB
    omega

private theorem wordOf_ne {a b : Word} (ne : b.toNat / 4 ≠ a.toNat / 4) : wordOf b ≠ wordOf a := by
  intro same
  rw [← wordOf_toNat, ← wordOf_toNat, same] at ne
  exact ne rfl

private theorem exists_bram_alias (beyond : 0x3FFF < a.toNat) :
    ∃ b : Word, b.toNat % 4 = 0 ∧ Documented b ∧ storeTarget b = some (.bram (wordIndex a)) ∧
      wordOf b ≠ wordOf a := by
  obtain ⟨b, low⟩ : ∃ b : Word, b.toNat = a.toNat / 4 % 4096 * 4 :=
    ⟨BitVec.ofNat 32 (a.toNat / 4 % 4096 * 4), by rw [BitVec.toNat_ofNat]; omega⟩
  have inB : inBram b = true := (inBram_iff b).mpr (by omega)
  have index : wordIndex b = wordIndex a := by
    apply BitVec.eq_of_toNat_eq
    rw [wordIndex_toNat, wordIndex_toNat]
    omega
  refine ⟨b, by omega, ⟨fun _ => by omega, fun timer => ?_⟩, storeTarget_bram.mpr ⟨inB, index⟩,
    wordOf_ne (by omega)⟩
  exact absurd (timerTarget_bram inB) timer

private theorem exists_timer_alias {r : BitVec 2} (target : timerTarget a = some r)
    (beyond : 0x30000010 ≤ a.toNat) :
    ∃ b : Word, b.toNat % 4 = 0 ∧ Documented b ∧ timerTarget b = some r ∧ wordOf b ≠ wordOf a := by
  have inA := timerTarget_toNat target
  obtain ⟨b, low⟩ : ∃ b : Word, b.toNat = 0x30000000 + 4 * r.toNat :=
    ⟨BitVec.ofNat 32 (0x30000000 + 4 * r.toNat), by rw [BitVec.toNat_ofNat]; omega⟩
  have inB : inTimer b = true := (inTimer_iff b).mpr (by omega)
  have reg : regIndex b = r := by
    apply BitVec.eq_of_toNat_eq
    rw [regIndex_toNat]
    omega
  have cell : timerTarget b = some r := by
    have selected : (inTimer b && regIndex b != 0b11) = true := by
      rw [inB, reg, Bool.true_and, bne_iff_ne]
      rintro rfl
      exact inA.2.2.2 rfl
    rw [timerTarget, if_pos selected, reg]
  refine ⟨b, by omega, ⟨fun bram => ?_, fun _ => by omega⟩, cell, wordOf_ne (by omega)⟩
  rw [(inTimer_apart b inB).1] at bram
  cases bram

end Targets

section Timer

/-- The bus port leaves the timer the registers it has on the edge without a write: RELOAD and EN
hold what is written, and what is acknowledged is not pending or set again on this edge. -/
def Unmoved (t : TimerRegs) (i : TimerIn) : Prop :=
  i.rst = true ∨
    (writesReg 0b00 i = true → i.wdata = t.reloadVal) ∧
    (writesReg 0b01 i = true → i.wdata.getLsbD 0 = t.en) ∧
    (acks i = true → t.pending = true → underflows t i = true)

variable {t : TimerRegs} {i j : TimerIn}

private theorem count_posedge_congr (rst : i.rst = j.rst) :
    (t.posedge i).count = (t.posedge j).count := by
  cases go : j.rst with
  | true => rw [TimerRegs.posedge, TimerRegs.posedge, rst, go, if_pos rfl, if_pos rfl]
  | false =>
    rw [go] at rst
    cases en : t.en with
    | false => rw [posedge_stopped rst en, posedge_stopped go en, count_written, count_written]
    | true =>
      by_cases zero : t.count = 0
      · rw [posedge_underflow rst en zero, posedge_underflow go en zero]
      · rw [posedge_down rst en zero, posedge_down go en zero]

private theorem tick_reset (rst : i.rst = true) : t.posedge i = t.tick i.rst := by
  rw [TimerRegs.tick, TimerRegs.posedge, TimerRegs.posedge, rst, if_pos rfl, if_pos rfl]

private theorem reloadVal_tick (go : i.rst = false) : (t.tick i.rst).reloadVal = t.reloadVal := by
  rw [TimerRegs.tick, t.reloadVal_posedge, reloadVal_written]
  · rfl
  · exact go

private theorem en_tick (go : i.rst = false) : (t.tick i.rst).en = t.en := by
  rw [TimerRegs.tick, en_posedge]
  · rfl
  · exact go

private theorem pending_tick (go : i.rst = false) :
    (t.tick i.rst).pending = (underflows t i || t.pending) := by
  rw [TimerRegs.tick, pending_posedge]
  · simp [acks, writesReg, underflows]
  · exact go

private theorem posedge_eq_tick_iff : t.posedge i = t.tick i.rst ↔ Unmoved t i := by
  cases go : i.rst with
  | true => exact iff_of_true (go ▸ tick_reset go) (.inl go)
  | false =>
    rw [← go, TimerRegs.ext_iff, t.reloadVal_posedge go, reloadVal_written, reloadVal_tick go,
      en_posedge go, en_tick go, pending_posedge go, pending_tick go]
    have count : (t.posedge i).count = (t.tick i.rst).count := count_posedge_congr rfl
    simp only [Unmoved, go, Bool.false_eq_true, false_or, count, and_true]
    refine and_congr ?_ (and_congr ?_ ?_)
    · split_ifs with reload
      · exact ⟨fun same _ => same, fun same => same reload⟩
      · exact iff_of_true rfl fun write => absurd write reload
    · split_ifs with ctrl
      · exact ⟨fun same _ => same, fun same => same ctrl⟩
      · exact iff_of_true rfl fun write => absurd write ctrl
    · cases acks i <;> cases t.pending <;> cases underflows t i <;> simp

private theorem readReg_posedge {r : BitVec 2} (other : writesReg r i = false) :
    (t.posedge i).readReg r = (t.tick i.rst).readReg r := by
  cases go : i.rst with
  | true => rw [← go, tick_reset go]
  | false =>
    rw [← go, TimerRegs.readReg, TimerRegs.readReg]
    split_ifs with reload ctrl status
    · rw [t.reloadVal_posedge go, reloadVal_written, reloadVal_tick go, ← reload, other,
        if_neg Bool.false_ne_true]
    · rw [en_posedge go, en_tick go, ← ctrl, other, if_neg Bool.false_ne_true]
    · rw [pending_posedge go, pending_tick go, acks, ← status, other, Bool.false_and,
        Bool.not_false, Bool.and_true]
    · rfl

private theorem exists_readReg_ne (i : TimerIn) (moved : t.posedge i ≠ t.tick i.rst) :
    ∃ r, (t.posedge i).readReg r ≠ (t.tick i.rst).readReg r := by
  by_contra! same
  have bit : ∀ b c : Bool, (BitVec.ofBool b).setWidth 32 = (BitVec.ofBool c).setWidth 32 →
      b = c := by decide
  refine moved (TimerRegs.ext (same 0) (bit _ _ (same 1)) (bit _ _ (same 2)) ?_)
  exact count_posedge_congr rfl

end Timer

section Board

variable {clkPerBit : ℕ} {s : Soc} {i : SocIn}

def writesTimer (s : Soc) (i : SocIn) : Bool :=
  s.timerSel i && s.dmemWe i && regIndex (s.periphAddr i) != 0b11

private theorem periphAddr_core (mmio : s.dbg.fsm.dbgMmioValid = false) :
    s.periphAddr i = s.dmemAddr i := by
  rw [Soc.periphAddr, mmio, if_neg Bool.false_ne_true]

/-- BRAM takes a store at its target, byte lanes and all, and nowhere else. -/
theorem mem_posedge (mem : s.dbg.fsm.dbgMemValid = false) :
    (s.posedge clkPerBit i).bram.mem =
      if s.dmemWe i && inBram (s.dmemAddr i) then
        writeMasked s.bram.mem (wordIndex (s.dmemAddr i)) (s.dmemWdata i) (s.dmemByteena i)
      else s.bram.mem := by
  simp [Soc.posedge, Bram.posedge, Soc.bramIn, Soc.bramSel, mem]

private theorem uartTxEn_iff (mmio : s.dbg.fsm.dbgMmioValid = false) (we : s.dmemWe i = true) :
    s.uartTxEn i = true ↔ storeTarget (s.dmemAddr i) = some .uartTx := by
  rw [storeTarget_uartTx, Soc.uartTxEn, Soc.uartSel, periphAddr_core mmio, we]
  simp

theorem writesTimer_iff (mmio : s.dbg.fsm.dbgMmioValid = false) (we : s.dmemWe i = true) :
    writesTimer s i = true ↔ timerTarget (s.dmemAddr i) ≠ none := by
  rw [writesTimer, Soc.timerSel, periphAddr_core mmio, we, timerTarget]
  split_ifs <;> simp_all

/-- A store that selects no register of the timer does not touch it. -/
theorem timer_untouched (mmio : s.dbg.fsm.dbgMmioValid = false)
    (other : writesTimer s i = false) :
    (s.posedge clkPerBit i).timer = s.timer.tick i.rst := by
  refine TimerRegs.posedge_congr _ rfl ?_
  have reg : (BitVec.extractLsb' 2 2 (BitVec.extractLsb' 0 4 (s.dmemAddr i))) =
      regIndex (s.dmemAddr i) := by
    ext k hk
    simp [regIndex]
  simp only [writesTimer, periphAddr_core mmio, Bool.and_eq_false_iff, bne_eq_false_iff_eq]
    at other
  simp only [TimerRegs.written, Soc.timerIn, periphAddr_core mmio, reg, Bool.false_and,
    Bool.false_eq_true, if_false]
  rcases other with unselected | last
  · rw [Bool.and_eq_false_iff.mpr unselected, if_neg Bool.false_ne_true]
  · simp [last, TimerRegs.write]

theorem isCtrlWrite_iff (we : s.dmemWe i = true) :
    VgaRegs.isCtrlWrite (s.vgaIn i) = true ↔ storeTarget (s.dmemAddr i) = some .vgaCtrl := by
  rw [storeTarget_vga (.inl rfl), vgaTarget]
  simp only [VgaRegs.isCtrlWrite, Soc.vgaIn, Soc.vgaSel, we, Bool.and_true, Bool.and_eq_true,
    beq_iff_eq, and_congr_right_iff]
  intro _
  split_ifs <;> simp_all

theorem isDrawWrite_iff (we : s.dmemWe i = true) :
    VgaRegs.isDrawWrite (s.vgaIn i) = true ↔
      ∃ w, storeTarget (s.dmemAddr i) = some (.vgaDraw w) := by
  simp only [storeTarget_vga (.inr ⟨_, rfl⟩), vgaTarget]
  simp only [VgaRegs.isDrawWrite, Soc.vgaIn, Soc.vgaSel, we, Bool.and_true, Bool.and_eq_true,
    beq_iff_eq]
  split_ifs <;> simp_all

private theorem drawWord_target (we : s.dmemWe i = true)
    (draw : VgaRegs.isDrawWrite (s.vgaIn i) = true) :
    storeTarget (s.dmemAddr i) = some (.vgaDraw (VgaRegs.cpuWordAddr (s.vgaIn i).addr)) := by
  obtain ⟨w, target⟩ := (isDrawWrite_iff we).mp draw
  have word := vgaTarget_draw ((storeTarget_vga (.inr ⟨w, rfl⟩)).mp target).2
  simp only [VgaRegs.isDrawWrite, Bool.and_eq_true] at draw
  have low : ((s.vgaIn i).addr.extractLsb' 2 10).toNat = (s.dmemAddr i).toNat / 4 % 1024 := by
    simp [Soc.vgaIn, BitVec.extractLsb'_toNat, Nat.shiftRight_eq_div_pow]
  rw [target, VgaRegs.cpuWordAddr, if_pos draw.2, VgaRegs.bufWordAddr, low, word.2]

/-- The framebuffer after the two edges of its clock that no store reaches. -/
def quietVga (s : Soc) (i : SocIn) : VgaRegs :=
  (s.vga.posedge 2 { s.vgaIn i with we := false }).posedge 2 { s.vgaIn i with we := false }

/-- The swap control that VGA_CTRL writes. -/
def vgaCtrl (v : VgaRegs) : Bool × Bool × Bool := (v.doubleBufEn, v.swapPending, v.frontBuf)

/-- What a cell holds after the edge is not what it would hold without the store. -/
def Changes (clkPerBit : ℕ) (s : Soc) (i : SocIn) : Cell → Prop
  | .bram w => (s.posedge clkPerBit i).bram.mem w ≠ s.bram.mem w
  | .uartTx =>
    (s.posedge clkPerBit i).uart.tx ≠ s.uart.tx.posedge uartParams clkPerBit i.rst 0 false
  | .vgaCtrl => vgaCtrl (s.posedge clkPerBit i).vga ≠ vgaCtrl (quietVga s i)
  | .vgaDraw w => ∃ b, bufMem b (s.posedge clkPerBit i).vga w ≠ bufMem b s.vga w
  | .timer r => (s.posedge clkPerBit i).timer.readReg r ≠ (s.timer.tick i.rst).readReg r

private theorem uartTxEn_of_changed (starts : Changes clkPerBit s i .uartTx) :
    s.uartTxEn i = true := by
  cases en : s.uartTxEn i with
  | true => rfl
  | false =>
    refine absurd ?_ starts
    simp [Soc.posedge, Soc.uartTxData, en]

private theorem vgaCtrl_quiet (other : VgaRegs.isCtrlWrite (s.vgaIn i) = false) :
    vgaCtrl (s.posedge clkPerBit i).vga = vgaCtrl (quietVga s i) := by
  have quiet : VgaRegs.isCtrlWrite { s.vgaIn i with we := false } = false := by
    simp [VgaRegs.isCtrlWrite]
  simp only [vgaCtrl, quietVga, Soc.posedge, Soc.vgaMid, VgaRegs.posedge, VgaRegs.frameStart,
    other, quiet, Bool.false_and]

private theorem timerTarget_of_writes {r : BitVec 2} (mmio : s.dbg.fsm.dbgMmioValid = false)
    (writes : writesReg r (s.timerIn i) = true) (defined : r ≠ 0b11) :
    timerTarget (s.dmemAddr i) = some r := by
  have reg : (BitVec.extractLsb' 0 4 (s.dmemAddr i)).extractLsb' 2 2 = regIndex (s.dmemAddr i) := by
    ext k hk
    simp [regIndex]
  simp only [writesReg, Soc.timerIn, Soc.timerSel, periphAddr_core mmio, reg, Bool.and_eq_true,
    beq_iff_eq] at writes
  have selected : (inTimer (s.dmemAddr i) && regIndex (s.dmemAddr i) != 0b11) = true := by
    rw [writes.1.1, writes.2, Bool.true_and, bne_iff_ne]
    exact defined
  rw [timerTarget, if_pos selected, writes.2]

private theorem changes_target {c : Cell} (mmio : s.dbg.fsm.dbgMmioValid = false)
    (mem : s.dbg.fsm.dbgMemValid = false) (we : s.dmemWe i = true)
    (changes : Changes clkPerBit s i c) : storeTarget (s.dmemAddr i) = some c := by
  cases c with
  | bram w =>
    rw [Changes, mem_posedge mem] at changes
    split_ifs at changes with write
    · rw [Bool.and_eq_true] at write
      refine storeTarget_bram.mpr ⟨write.2, ?_⟩
      by_contra other
      exact changes (writeMasked_other _ _ _ (Ne.symm other))
    · exact absurd rfl changes
  | uartTx => exact (uartTxEn_iff mmio we).mp (uartTxEn_of_changed changes)
  | vgaCtrl =>
    refine (isCtrlWrite_iff we).mp ?_
    by_contra other
    exact changes (vgaCtrl_quiet (eq_false_of_ne_true other))
  | vgaDraw w =>
    obtain ⟨b, changed⟩ := changes
    by_contra elsewhere
    have other : VgaRegs.isDrawWrite (s.vgaIn i) = true →
        VgaRegs.cpuWordAddr (s.vgaIn i).addr ≠ w := by
      rintro draw rfl
      exact elsewhere (drawWord_target we draw)
    exact changed ((bufMem_other other b).trans (bufMem_other other b))
  | timer r =>
    refine storeTarget_timer.mpr (timerTarget_of_writes mmio ?_ ?_)
    · by_contra other
      exact changes (readReg_posedge (eq_false_of_ne_true other))
    · rintro rfl
      exact changes rfl

/-- A store stays within the documented addresses of the device whose next state it makes other
than that of the edge without it, and no store to another documented word changes what it does. -/
structure Contained (clkPerBit : ℕ) (s : Soc) (i : SocIn) : Prop where
  bram : ∀ w, (s.posedge clkPerBit i).bram.mem w ≠ s.bram.mem w → (s.dmemAddr i).toNat ≤ 0x3FFF
  uart : (s.posedge clkPerBit i).uart.tx ≠
      s.uart.tx.posedge uartParams clkPerBit i.rst 0 false →
    wordOf (s.dmemAddr i) = wordOf 0x10000000
  timer : (s.posedge clkPerBit i).timer ≠ s.timer.tick i.rst →
    wordOf (s.dmemAddr i) = wordOf 0x30000000 ∨ wordOf (s.dmemAddr i) = wordOf 0x30000004 ∨
      wordOf (s.dmemAddr i) = wordOf 0x30000008
  alone : ∀ (t : Soc) (j : SocIn) (c : Cell), t.dbg.fsm.dbgMmioValid = false →
    t.dbg.fsm.dbgMemValid = false → t.dmemWe j = true → Documented (t.dmemAddr j) →
    Changes clkPerBit s i c → Changes clkPerBit t j c →
      wordOf (s.dmemAddr i) = wordOf (t.dmemAddr j)

/-- The store leaves the word that its address selects in BRAM as it is. -/
def Idempotent (s : Soc) (i : SocIn) : Prop :=
  mergeBytes (s.bram.mem (wordIndex (s.dmemAddr i))) (s.dmemWdata i) (s.dmemByteena i) =
    s.bram.mem (wordIndex (s.dmemAddr i))

private theorem bram_contained_iff (mem : s.dbg.fsm.dbgMemValid = false) (we : s.dmemWe i = true) :
    (∀ w, (s.posedge clkPerBit i).bram.mem w ≠ s.bram.mem w → (s.dmemAddr i).toNat ≤ 0x3FFF) ↔
      (inBram (s.dmemAddr i) = true → (s.dmemAddr i).toNat ≤ 0x3FFF ∨ Idempotent s i) := by
  rw [mem_posedge mem, we, Bool.true_and]
  constructor
  · intro contained bram
    rw [if_pos bram] at contained
    by_cases same : Idempotent s i
    · exact .inr same
    · refine .inl (contained (wordIndex (s.dmemAddr i)) ?_)
      rwa [writeMasked_same]
  · intro within w changed
    split_ifs at changed with bram
    · rcases within bram with low | same
      · exact low
      · refine absurd ?_ changed
        by_cases here : w = wordIndex (s.dmemAddr i)
        · rw [here, writeMasked_same, same]
        · exact writeMasked_other _ _ _ here
    · exact absurd rfl changed

theorem wordOf_iff {a b : Word} : wordOf a = wordOf b ↔ a.toNat / 4 = b.toNat / 4 := by
  rw [← BitVec.toNat_inj, wordOf_toNat, wordOf_toNat]

private theorem timerWord_iff {a : Word} {r : BitVec 2} (target : timerTarget a = some r) :
    (wordOf a = wordOf 0x30000000 ∨ wordOf a = wordOf 0x30000004 ∨
      wordOf a = wordOf 0x30000008) ↔ a.toNat < 0x30000010 := by
  have inside := timerTarget_toNat target
  rw [wordOf_iff, wordOf_iff, wordOf_iff]
  change _ = 0x30000000 / 4 ∨ _ = 0x30000004 / 4 ∨ _ = 0x30000008 / 4 ↔ _
  omega

private theorem timerTarget_of_moved (mmio : s.dbg.fsm.dbgMmioValid = false)
    (we : s.dmemWe i = true)
    (moved : (s.posedge clkPerBit i).timer ≠ s.timer.tick i.rst) :
    ∃ r, timerTarget (s.dmemAddr i) = some r := by
  have writes : writesTimer s i = true := by
    by_contra other
    exact moved (timer_untouched mmio (eq_false_of_ne_true other))
  exact Option.ne_none_iff_exists'.mp ((writesTimer_iff mmio we).mp writes)

private theorem timer_contained_iff (mmio : s.dbg.fsm.dbgMmioValid = false)
    (we : s.dmemWe i = true) :
    ((s.posedge clkPerBit i).timer ≠ s.timer.tick i.rst →
      wordOf (s.dmemAddr i) = wordOf 0x30000000 ∨ wordOf (s.dmemAddr i) = wordOf 0x30000004 ∨
        wordOf (s.dmemAddr i) = wordOf 0x30000008) ↔
      (timerTarget (s.dmemAddr i) ≠ none →
        (s.dmemAddr i).toNat < 0x30000010 ∨ Unmoved s.timer (s.timerIn i)) := by
  constructor
  · intro contained selected
    obtain ⟨r, target⟩ := Option.ne_none_iff_exists'.mp selected
    by_cases same : Unmoved s.timer (s.timerIn i)
    · exact .inr same
    · exact .inl ((timerWord_iff target).mp (contained (mt posedge_eq_tick_iff.mp same)))
  · intro within moved
    obtain ⟨r, target⟩ := timerTarget_of_moved mmio we moved
    have selected : timerTarget (s.dmemAddr i) ≠ none := by
      rw [target]
      exact Option.some_ne_none r
    have low := (within selected).resolve_right (mt posedge_eq_tick_iff.mpr moved)
    exact (timerWord_iff target).mpr low

private theorem uart_contained (mmio : s.dbg.fsm.dbgMmioValid = false) (we : s.dmemWe i = true)
    (starts : Changes clkPerBit s i .uartTx) : wordOf (s.dmemAddr i) = wordOf 0x10000000 := by
  have target := (uartTxEn_iff mmio we).mp (uartTxEn_of_changed starts)
  rw [storeTarget_uartTx, inUart_iff] at target
  have reg := congrArg BitVec.toNat target.2
  rw [regIndex_toNat] at reg
  rw [wordOf_iff]
  change _ = 0x10000000 / 4
  change _ = 0 at reg
  omega

private theorem documented_of_changes {c : Cell} (mmio : s.dbg.fsm.dbgMmioValid = false)
    (mem : s.dbg.fsm.dbgMemValid = false) (we : s.dmemWe i = true)
    (bram : inBram (s.dmemAddr i) = true → (s.dmemAddr i).toNat ≤ 0x3FFF ∨ Idempotent s i)
    (timer : timerTarget (s.dmemAddr i) ≠ none →
      (s.dmemAddr i).toNat < 0x30000010 ∨ Unmoved s.timer (s.timerIn i))
    (changes : Changes clkPerBit s i c) : Documented (s.dmemAddr i) := by
  have target := changes_target mmio mem we changes
  constructor
  · intro inside
    have cell : c = .bram (wordIndex (s.dmemAddr i)) := by
      rw [storeTarget_bram.mpr ⟨inside, rfl⟩] at target
      exact (Option.some.inj target).symm
    subst cell
    exact (bram_contained_iff mem we).mpr bram _ changes
  · intro selected
    obtain ⟨r, register⟩ := Option.ne_none_iff_exists'.mp selected
    have cell : c = .timer r := by
      rw [storeTarget_timer.mpr register] at target
      exact (Option.some.inj target).symm
    subst cell
    refine (timer selected).resolve_right fun same => changes ?_
    exact congrArg (fun t : TimerRegs => t.readReg r) (posedge_eq_tick_iff.mpr same)

/-- The board with a pipelined core that stores the word `data` at `a`. -/
def storing (s : Soc) (a data : Word) : Soc :=
  { s with
    core := .pipelined
      { Core.reset zeroCsr fun _ => 0 with
        exMem :=
          { result := a, src2Value := data, isSInstr := true, isSw := true, valid := true } } }

private theorem storing_port {b data : Word} (aligned : b.toNat % 4 = 0) :
    (storing s b data).dataPort i =
      { addr := b, wdata := data, we := true, byteena := 0b1111#4, re := false } := by
  have off : b.extractLsb' 0 2 = 0 := by
    apply BitVec.eq_of_toNat_eq
    rw [BitVec.extractLsb'_toNat, Nat.shiftRight_zero]
    exact aligned
  simp [storing, Soc.dataPort, CpuCore.dataPort, Core.dataPort, ExMem.dataPort, ExMem.byteOff, off,
    storeData, storeMask]

private theorem storing_bram {b : Word} {w : BramAddr} (mem : s.dbg.fsm.dbgMemValid = false)
    (aligned : b.toNat % 4 = 0) (target : storeTarget b = some (.bram w)) :
    Changes clkPerBit (storing s b (~~~(s.bram.mem w))) i (.bram w) := by
  obtain ⟨bram, index⟩ := storeTarget_bram.mp target
  have port := @storing_port s i b (~~~(s.bram.mem w)) aligned
  rw [Changes, mem_posedge (s := storing s b (~~~(s.bram.mem w))) mem]
  simp only [Soc.dmemWe, Soc.dmemAddr, Soc.dmemWdata, Soc.dmemByteena, port, bram, index,
    Bool.and_self, if_true, writeMasked_same, mergeBytes_full]
  change ¬ ~~~(s.bram.mem w) = s.bram.mem w
  bv_omega

private theorem storing_timer {b : Word} {r : BitVec 2} (mmio : s.dbg.fsm.dbgMmioValid = false)
    (we : s.dmemWe i = true) (aligned : b.toNat % 4 = 0) (twin : timerTarget b = some r)
    (target : timerTarget (s.dmemAddr i) = some r) :
    ((storing s b (s.dmemWdata i)).posedge clkPerBit i).timer = (s.posedge clkPerBit i).timer := by
  have port := @storing_port s i b (s.dmemWdata i) aligned
  have decode : ∀ {a : Word}, timerTarget a = some r → inTimer a = true ∧
      (BitVec.extractLsb' 0 4 a).extractLsb' 2 2 = r := by
    intro a hit
    have reg : (BitVec.extractLsb' 0 4 a).extractLsb' 2 2 = regIndex a := by
      ext k hk
      simp [regIndex]
    unfold timerTarget at hit
    split_ifs at hit with selected
    rw [Bool.and_eq_true] at selected
    exact ⟨selected.1, reg.trans (Option.some.inj hit)⟩
  have addr : (storing s b (s.dmemWdata i)).dmemAddr i = b := by rw [Soc.dmemAddr, port]
  have wdata : (storing s b (s.dmemWdata i)).dmemWdata i = s.dmemWdata i := by
    rw [Soc.dmemWdata, port]
  have storeWe : (storing s b (s.dmemWdata i)).dmemWe i = true := by rw [Soc.dmemWe, port]
  have quiet : (storing s b (s.dmemWdata i)).dbg.fsm.dbgMmioValid = false := mmio
  refine TimerRegs.posedge_congr _ rfl ?_
  simp only [TimerRegs.written, Soc.timerIn, Soc.timerSel, periphAddr_core mmio,
    periphAddr_core quiet, addr, wdata, storeWe, we, decode twin, decode target, Bool.and_self,
    if_true]

private theorem exists_alias (mmio : s.dbg.fsm.dbgMmioValid = false)
    (mem : s.dbg.fsm.dbgMemValid = false) (we : s.dmemWe i = true)
    (outside : ¬ ((inBram (s.dmemAddr i) = true →
        (s.dmemAddr i).toNat ≤ 0x3FFF ∨ Idempotent s i) ∧
      (timerTarget (s.dmemAddr i) ≠ none →
        (s.dmemAddr i).toNat < 0x30000010 ∨ Unmoved s.timer (s.timerIn i)))) :
    ∃ b data c, Documented b ∧ wordOf b ≠ wordOf (s.dmemAddr i) ∧
      Changes clkPerBit s i c ∧ Changes clkPerBit (storing s b data) i c := by
  rw [not_and_or, Classical.not_imp, Classical.not_imp, not_or, not_or] at outside
  rcases outside with ⟨inside, beyond, changed⟩ | ⟨selected, beyond, moved⟩
  · obtain ⟨b, aligned, documented, target, apart⟩ :=
      exists_bram_alias (a := s.dmemAddr i) (by omega)
    refine ⟨b, _, _, documented, apart, ?_, storing_bram mem aligned target⟩
    rw [Changes, mem_posedge mem, we, inside, Bool.and_self, if_pos rfl, writeMasked_same]
    exact changed
  · obtain ⟨r, target⟩ := Option.ne_none_iff_exists'.mp selected
    obtain ⟨b, aligned, documented, twin, apart⟩ := exists_timer_alias target (by omega)
    obtain ⟨q, differs⟩ := exists_readReg_ne _ (mt posedge_eq_tick_iff.mp moved)
    refine ⟨b, s.dmemWdata i, .timer q, documented, apart, differs, ?_⟩
    rw [Changes, storing_timer mmio we aligned twin target]
    exact differs

/-- Exactly the stores to 0x4000-0xFFFF that change what BRAM holds, and those to the timer
from 0x30000010 on that change its registers, reach a device outside its documented addresses.
Each of them changes a cell of another word. -/
theorem stores_contained_iff (clkPerBit : ℕ) (s : Soc) (i : SocIn)
    (mmio : s.dbg.fsm.dbgMmioValid = false) (mem : s.dbg.fsm.dbgMemValid = false)
    (we : s.dmemWe i = true) :
    (Contained clkPerBit s i ↔
      (inBram (s.dmemAddr i) = true → (s.dmemAddr i).toNat ≤ 0x3FFF ∨ Idempotent s i) ∧
      (timerTarget (s.dmemAddr i) ≠ none →
        (s.dmemAddr i).toNat < 0x30000010 ∨ Unmoved s.timer (s.timerIn i))) ∧
    (¬ Contained clkPerBit s i → ∃ b data c, Documented b ∧
      wordOf b ≠ wordOf (s.dmemAddr i) ∧ Changes clkPerBit s i c ∧
      Changes clkPerBit (storing s b data) i c) := by
  have exact_iff : Contained clkPerBit s i ↔
      (inBram (s.dmemAddr i) = true → (s.dmemAddr i).toNat ≤ 0x3FFF ∨ Idempotent s i) ∧
      (timerTarget (s.dmemAddr i) ≠ none →
        (s.dmemAddr i).toNat < 0x30000010 ∨ Unmoved s.timer (s.timerIn i)) := by
    constructor
    · rintro ⟨bram, -, timer, -⟩
      exact ⟨(bram_contained_iff mem we).mp bram, (timer_contained_iff mmio we).mp timer⟩
    · rintro ⟨bram, timer⟩
      refine ⟨(bram_contained_iff mem we).mpr bram, uart_contained mmio we,
        (timer_contained_iff mmio we).mpr timer, ?_⟩
      intro t j c tMmio tMem tWe documented changes tChanges
      have target := changes_target mmio mem we changes
      refine wordOf_injective (documented_of_changes mmio mem we bram timer changes) documented ?_
        (target.trans (changes_target tMmio tMem tWe tChanges).symm)
      rw [target]
      exact Option.some_ne_none c
  exact ⟨exact_iff, fun outside => exists_alias mmio mem we (mt exact_iff.mpr outside)⟩

def runInput (n : ℕ) : SocIn := { rst := n == 0, key1 := false }

/-- A program that stores a word at 0x1000: `lui x1, 1; sw x1, 0(x1)`. -/
def storeBoard : Soc := Soc.powerUp .pipelinedZero [0x000010b7, 0x0010a023]

theorem stores_contained_storeBoard :
    Contained 2 (Soc.run 2 storeBoard runInput 9) (runInput 9) :=
  (stores_contained_iff 2 _ _ (by decide +kernel) (by decide +kernel) (by decide +kernel)).1.mpr
    ⟨fun _ => .inl (by decide +kernel), fun timer => absurd (by decide +kernel) timer⟩

/-- The same 16 KB up: `lui x1, 4; sw x1, 0(x1)`. -/
def overrunBoard : Soc := Soc.powerUp .pipelinedZero [0x000040b7, 0x0010a023]

/-- The store to 0x4000 overwrites the first instruction of the program. -/
theorem store_overruns_bram :
    (Soc.run 2 overrunBoard runInput 9).dmemWe (runInput 9) = true ∧
    (Soc.run 2 overrunBoard runInput 9).dmemAddr (runInput 9) = 0x4000 ∧
    (Soc.run 2 overrunBoard runInput 9).dbg.fsm.dbgMemValid = false ∧
    (Soc.run 2 overrunBoard runInput 9).dbg.fsm.dbgMmioValid = false ∧
    ¬ Contained 2 (Soc.run 2 overrunBoard runInput 9) (runInput 9) := by
  refine ⟨by decide +kernel, by decide +kernel, by decide +kernel, by decide +kernel, ?_⟩
  intro contained
  have changed : ((Soc.run 2 overrunBoard runInput 9).posedge 2 (runInput 9)).bram.mem 0 ≠
      (Soc.run 2 overrunBoard runInput 9).bram.mem 0 := by decide +kernel
  exact absurd (contained.bram 0 changed) (by decide +kernel)

end Board

end RiscvSoc.Fpga.AddressMap
