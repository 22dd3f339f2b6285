/- GID: RiscvSoc/Fpga/BoardRun
   generality: G
   utility: support
   digest: The pipelined core on the board, clock by clock beside the one in the testbench. -/

import RiscvSoc.Cpu.WrongPath
import RiscvSoc.Fpga.AddressMap
import RiscvSoc.Peripherals.VgaRead
import RiscvSoc.Peripherals.VgaSwap
import RiscvSoc.Testbench.Refinement

set_option autoImplicit false
set_option relaxedAutoImplicit false

namespace RiscvSoc.Fpga.BoardRun

open RiscvSoc.Clocked.Trajectory
open RiscvSoc.Cpu.Decoder
open RiscvSoc.Cpu.Datapath
open RiscvSoc.Cpu.SingleCycle
open RiscvSoc.Cpu.Pipeline
open RiscvSoc.Cpu.PipelineEdge
open RiscvSoc.Cpu.StageImage
open RiscvSoc.Cpu.WrongPath
open RiscvSoc.Memory.ByteLanes
open RiscvSoc.Memory
open RiscvSoc.Memory.DpRam (BramAddr Bram)
open RiscvSoc.Peripherals.DebugUart
open RiscvSoc.Peripherals.Timer
open RiscvSoc.Peripherals.VgaFramebuffer
open RiscvSoc.Peripherals.VgaSwap (frontBuf_posedge swapPending_posedge)
open RiscvSoc.Peripherals.VgaRead (bufMem bufMem_posedge)
open RiscvSoc.Fpga.ReadMmio (timerTarget)
open RiscvSoc.Fpga.AddressMap
open RiscvSoc.Fpga.RiscvTop
open RiscvSoc.Testbench.TbDiff
open RiscvSoc.Testbench.Lockstep
open RiscvSoc.Testbench.Refinement

section Framebuffer

/-- Out of double-buffer mode, with no swap under way: buffer 0 is drawn and shown. -/
structure Single (v : VgaRegs) : Prop where
  mode : v.doubleBufEn = false
  front : v.frontBuf = false
  pending : v.swapPending = false

variable {v : VgaRegs} {i : VgaIn} {clkDiv : ℕ}

private theorem single_posedge (single : Single v) (go : i.rst = false)
    (other : VgaRegs.isCtrlWrite i = false) : Single (v.posedge clkDiv i) := by
  refine ⟨?_, ?_, ?_⟩
  · simp [VgaRegs.posedge, go, other, single.mode]
  · rw [frontBuf_posedge go, single.pending, Bool.and_false, if_neg Bool.false_ne_true]
    exact single.front
  · rw [swapPending_posedge go, single.pending, other]
    simp

private theorem buf0_posedge (single : Single v) :
    (v.posedge clkDiv i).buf0.mem =
      if VgaRegs.isDrawWrite i then
        Function.update v.buf0.mem (VgaRegs.cpuWordAddr i.addr) i.wdata
      else v.buf0.mem := by
  have back : v.drawBufSel = false := by simp [VgaRegs.drawBufSel, single.mode, single.front]
  have edge := @bufMem_posedge clkDiv v i false
  rw [back] at edge
  simpa [bufMem] using edge

private theorem buf0_clock {s : Soc} {j : SocIn} {clkPerBit : ℕ} (single : Single s.vga)
    (go : j.rst = false) (other : VgaRegs.isCtrlWrite (s.vgaIn j) = false) :
    Single (s.posedge clkPerBit j).vga ∧
      (s.posedge clkPerBit j).vga.buf0.mem =
        if VgaRegs.isDrawWrite (s.vgaIn j) then
          Function.update s.vga.buf0.mem (VgaRegs.cpuWordAddr (s.vgaIn j).addr) (s.vgaIn j).wdata
        else s.vga.buf0.mem := by
  have mid : Single (s.vgaMid j) := single_posedge single go other
  refine ⟨single_posedge mid go other, ?_⟩
  change ((s.vgaMid j).posedge 2 (s.vgaIn j)).buf0.mem = _
  rw [buf0_posedge mid, Soc.vgaMid, buf0_posedge single]
  split_ifs
  · exact Function.update_idem _ _ _
  · rfl

end Framebuffer

section Program

/-- What a program may store to: its data in BRAM, whole words of the draw buffer, and the UART or
nothing at all. -/
def Allowed (size : ℕ) (p : DataPort) : Prop :=
  match storeTarget p.addr with
  | some (.bram a) => size ≤ a.toNat ∧ p.addr.toNat < 0x4000
  | some (.vgaDraw _) => p.byteena = 0b1111#4
  | some .uartTx | none => True
  | some .vgaCtrl | some (.timer _) => False

/-- A program of `size` words that stays within them, loads from BRAM, and stores as allowed. -/
structure Confined (imem : Memory) (size : ℕ) (G : ℕ → Golden) : Prop where
  small : size ≤ 0x1000
  code : ∀ w : BitVec 30, w.toNat < size → imem w = (G 0).dmem w
  fetch : ∀ k, (G k).core.pc.toNat < 4 * size
  load : ∀ k, isLoad ((G k).instr imem) = true →
    ((G k).core.dataPort ((G k).instr imem)).addr.toNat < 0x4000
  store : ∀ k, isSInstr ((G k).instr imem) = true →
    Allowed size ((G k).core.dataPort ((G k).instr imem))

private theorem Allowed.apart {size : ℕ} {p : DataPort} (allowed : Allowed size p) {w : BitVec 30}
    (code : w.toNat < size) (small : size ≤ 0x1000) : w ≠ wordIndex p.addr := by
  rintro rfl
  have word : (wordIndex p.addr).toNat = p.addr.toNat / 4 := wordOf_toNat p.addr
  have inside : inBram p.addr = true := (inBram_iff _).mpr (by omega)
  have target : storeTarget p.addr = some (.bram (Memory.DpRam.wordIndex p.addr)) :=
    storeTarget_bram.mpr ⟨inside, rfl⟩
  rw [Allowed, target] at allowed
  have index := wordIndex_toNat p.addr
  have := allowed.1
  omega

variable {imem : Memory} {size : ℕ} {G : ℕ → Golden}

private theorem Confined.code_kept (confined : Confined imem size G)
    (steps : ∀ k, G (k + 1) = (G k).posedge imem ()) (k : ℕ) {w : BitVec 30}
    (inside : w.toNat < size) : (G k).dmem w = imem w := by
  induction k with
  | zero => exact (confined.code w inside).symm
  | succ k ih =>
    rw [steps]
    change clockDmem (G k).dmem ((G k).core.dataPort ((G k).instr imem)) w = _
    unfold clockDmem
    split_ifs with we
    · have allowed := confined.store k we
      rw [writeMasked_other _ _ _ (allowed.apart inside confined.small)]
      exact ih
    · exact ih

end Program

section Clock

/-- What the core of the bench would have to see in this clock to do the same. -/
def benchCycle (s : Soc) (i : SocIn) : Cycle where
  halt := s.halt i
  imemVld := s.imemRvalid i
  dmemVld := s.dmemRvalid i
  imemIdle := s.imemRdata
  ldIdle := s.ldData i

/-- The debug UART accesses neither memory nor a peripheral. -/
def Undisturbed (s : Soc) : Prop := s.dbg.fsm.dbgMemValid = false ∧ s.dbg.fsm.dbgMmioValid = false

/-- Word `w` of the draw buffer in the address space. -/
def drawIndex (w : ℕ) : BitVec 30 := BitVec.ofNat 30 (0x8000400 + w)

/-- The board has the core of the bench, and what is in the memory of the bench at the addresses of
BRAM and of the draw buffer. -/
structure Tracks (s : Soc) (d : Dut) : Prop where
  core : ∃ c, s.core = .pipelined c ∧ UpToFlush c d.core
  mem : ∀ a : BramAddr, s.bram.mem a = d.dmem (a.setWidth 30)
  draw : ∀ w < bufWords, s.vga.buf0.mem w = d.dmem (drawIndex w)
  fetchPort : s.bram.addressAR = DpRam.wordIndex s.imemAddrPrev
  dataPort : s.bram.addressBR = DpRam.wordIndex s.dmemAddrPrev
  single : Single s.vga
  timer : s.timer.en = false ∧ s.timer.pending = false

variable {clkPerBit : ℕ} {s : Soc} {i : SocIn} {d : Dut}

theorem Tracks.port (tracks : Tracks s d) : s.dataPort i = d.core.dataPort := by
  obtain ⟨c, core, same⟩ := tracks.core
  rw [← same.dataPort, Soc.dataPort, core]
  rfl

theorem Tracks.imemAddr (tracks : Tracks s d) (noRst : i.rst = false) :
    s.imemAddr i = d.core.pc := by
  obtain ⟨c, core, same⟩ := tracks.core
  rw [← same.behind.1, Soc.imemAddr, core, CpuCore.imemAddr, noRst]
  rfl

variable {imem : Memory} {size : ℕ} {G : ℕ → Golden} {T : CsrAddr → Prop} {a : ℕ}

private theorem allowed_of_we (confined : Confined imem size G) (inv : InStep imem T G d a)
    (we : d.core.dataPort.we = true) : Allowed size d.core.dataPort := by
  have valid : d.core.exMem.valid = true := by
    simp only [Core.dataPort, ExMem.dataPort, Bool.and_eq_true] at we
    exact we.2
  have m := inv.inMem valid
  have store : isSInstr ((G (posMem d.core a)).instr imem) = true := m.we ▸ we
  rw [Core.dataPort, m.dataPort store]
  exact confined.store _ store

theorem setWidth_toNat (a : BramAddr) : (a.setWidth 30 : BitVec 30).toNat = a.toNat := by
  rw [BitVec.toNat_setWidth]
  omega

private theorem mem_tracked (tracks : Tracks s d) (quiet : Undisturbed s)
    (allowed : d.core.dataPort.we = true → Allowed size d.core.dataPort) (a : BramAddr) :
    (s.posedge clkPerBit i).bram.mem a = clockDmem d.dmem d.core.dataPort (a.setWidth 30) := by
  have bound := a.isLt
  have index := setWidth_toNat a
  rw [mem_posedge quiet.1]
  simp only [Soc.dmemWe, Soc.dmemAddr, Soc.dmemWdata, Soc.dmemByteena, @Tracks.port s i d tracks]
  unfold clockDmem
  cases we : d.core.dataPort.we with
  | false =>
    simp only [Bool.false_and, Bool.false_eq_true, if_false]
    exact tracks.mem a
  | true =>
    have word : (wordIndex d.core.dataPort.addr).toNat = d.core.dataPort.addr.toNat / 4 :=
      wordOf_toNat _
    have low := wordIndex_toNat d.core.dataPort.addr
    simp only [Bool.true_and, if_true]
    split_ifs with inside
    · have target := storeTarget_bram.mpr ⟨inside, rfl⟩
      have small := allowed we
      rw [Allowed, target] at small
      by_cases here : a = DpRam.wordIndex d.core.dataPort.addr
      · have same : a.setWidth 30 = wordIndex d.core.dataPort.addr := by
          apply BitVec.eq_of_toNat_eq
          rw [index, here, low, word]
          have := small.2
          omega
        rw [← here, same, writeMasked_same, ← same, writeMasked_same, tracks.mem]
      · have other : a.setWidth 30 ≠ wordIndex d.core.dataPort.addr := by
          intro same
          apply here
          apply BitVec.eq_of_toNat_eq
          rw [low, ← index, same, word]
          have := small.2
          omega
        rw [writeMasked_other _ _ _ here, writeMasked_other _ _ _ other]
        exact tracks.mem a
    · have other : a.setWidth 30 ≠ wordIndex d.core.dataPort.addr := by
        intro same
        rw [inBram_iff] at inside
        rw [same, word] at index
        omega
      rw [writeMasked_other _ _ _ other]
      exact tracks.mem a

theorem drawIndex_toNat {w : ℕ} (inside : w < bufWords) : (drawIndex w).toNat = 0x8000400 + w := by
  rw [bufWords] at inside
  rw [drawIndex, BitVec.toNat_ofNat]
  omega

/-- The addresses of a word of the draw buffer. -/
theorem storeTarget_drawIndex {a : Word} {w : ℕ} (inside : w < bufWords)
    (word : wordIndex a = drawIndex w) : storeTarget a = some (.vgaDraw w) := by
  have index := congrArg BitVec.toNat word
  rw [drawIndex_toNat inside, show (wordIndex a).toNat = a.toNat / 4 from wordOf_toNat a] at index
  rw [bufWords] at inside
  have vga : inVga a = true := (inVga_iff a).mpr (by omega)
  have low : (a.extractLsb' 0 16).toNat = a.toNat % 65536 := by simp [BitVec.extractLsb'_toNat]
  have buf : VgaRegs.bufWordAddr (a.extractLsb' 0 16) = w := by
    rw [VgaRegs.bufWordAddr, BitVec.extractLsb'_toNat, low, Nat.shiftRight_eq_div_pow]
    omega
  have valid : VgaRegs.bufWordAddrValid (a.extractLsb' 0 16) = true := by
    rw [VgaRegs.bufWordAddrValid, buf, decide_eq_true_eq, bufWords]
    omega
  have page : (a.extractLsb' 0 16).extractLsb' 12 4 = 0x1#4 := by
    apply BitVec.eq_of_toNat_eq
    rw [BitVec.extractLsb'_toNat, low, Nat.shiftRight_eq_div_pow]
    change a.toNat % 65536 / 2 ^ 12 % 2 ^ 4 = 1
    omega
  have nonzero : a.extractLsb' 0 16 ≠ 0x0000 := by
    intro zero
    rw [zero] at page
    exact absurd page (by decide)
  rw [storeTarget_vga (.inr ⟨w, rfl⟩)]
  refine ⟨vga, ?_⟩
  rw [vgaTarget, if_neg nonzero, page, valid, VgaRegs.cpuWordAddr, valid, buf]
  rfl

private theorem wordIndex_of_vgaDraw {a : Word} {w : ℕ}
    (target : storeTarget a = some (.vgaDraw w)) :
    w < bufWords ∧ wordIndex a = drawIndex w ∧ VgaRegs.cpuWordAddr (a.extractLsb' 0 16) = w := by
  obtain ⟨vga, draw⟩ := (storeTarget_vga (.inr ⟨w, rfl⟩)).mp target
  obtain ⟨page, index⟩ := vgaTarget_draw draw
  rw [inVga_iff] at vga
  unfold vgaTarget at draw
  split_ifs at draw with ctrl valid
  · cases draw
  · have addr : VgaRegs.cpuWordAddr (a.extractLsb' 0 16) = w := by simpa using draw
    rw [Bool.and_eq_true] at valid
    have inside : w < bufWords := by
      rw [← addr, VgaRegs.cpuWordAddr, if_pos valid.2]
      exact of_decide_eq_true valid.2
    refine ⟨inside, ?_, addr⟩
    apply BitVec.eq_of_toNat_eq
    rw [drawIndex_toNat inside, show (wordIndex a).toNat = a.toNat / 4 from wordOf_toNat a]
    omega

private theorem no_ctrl (tracks : Tracks s d)
    (allowed : d.core.dataPort.we = true → Allowed size d.core.dataPort) :
    VgaRegs.isCtrlWrite (s.vgaIn i) = false := by
  have port := @Tracks.port s i d tracks
  have dmemWe : s.dmemWe i = d.core.dataPort.we := congrArg DataPort.we port
  cases we : d.core.dataPort.we with
  | false => simp [VgaRegs.isCtrlWrite, Soc.vgaIn, dmemWe, we]
  | true =>
    have small := allowed we
    rw [← Bool.not_eq_true, isCtrlWrite_iff (dmemWe.trans we),
      show s.dmemAddr i = d.core.dataPort.addr from congrArg DataPort.addr port]
    intro target
    rwa [Allowed, target] at small

private theorem draw_tracked (tracks : Tracks s d) (noRst : i.rst = false)
    (allowed : d.core.dataPort.we = true → Allowed size d.core.dataPort) :
    Single (s.posedge clkPerBit i).vga ∧ ∀ w < bufWords,
      (s.posedge clkPerBit i).vga.buf0.mem w = clockDmem d.dmem d.core.dataPort (drawIndex w) := by
  have port := @Tracks.port s i d tracks
  have dmemWe : s.dmemWe i = d.core.dataPort.we := congrArg DataPort.we port
  have dmemAddr : s.dmemAddr i = d.core.dataPort.addr := congrArg DataPort.addr port
  obtain ⟨single, buf0⟩ := @buf0_clock s i clkPerBit tracks.single noRst (no_ctrl tracks allowed)
  refine ⟨single, fun w inside => ?_⟩
  cases we : d.core.dataPort.we with
  | false =>
    have draw : VgaRegs.isDrawWrite (s.vgaIn i) = false := by
      simp [VgaRegs.isDrawWrite, Soc.vgaIn, dmemWe, we]
    rw [buf0, draw, clockDmem, we, if_neg Bool.false_ne_true, if_neg Bool.false_ne_true]
    exact tracks.draw w inside
  | true =>
    have active : s.dmemWe i = true := dmemWe.trans we
    have small := allowed we
    rw [buf0, clockDmem, we, if_pos rfl]
    split_ifs with draw
    · obtain ⟨v, target⟩ := (isDrawWrite_iff active).mp draw
      rw [dmemAddr] at target
      rw [Allowed, target] at small
      obtain ⟨-, word, addr⟩ := wordIndex_of_vgaDraw target
      have address : VgaRegs.cpuWordAddr (s.vgaIn i).addr = v := by
        rw [← addr, ← dmemAddr]
        rfl
      have data : (s.vgaIn i).wdata = d.core.dataPort.wdata := congrArg DataPort.wdata port
      rw [address, data, word, show d.core.dataPort.byteena = 0b1111#4 from small]
      by_cases here : w = v
      · rw [here, Function.update_self, writeMasked_same, mergeBytes_full]
      · have other : drawIndex w ≠ drawIndex v := by
          intro same
          rw [← word] at same
          have target' := storeTarget_drawIndex inside same.symm
          rw [target] at target'
          exact here (by simpa using target'.symm)
        rw [Function.update_of_ne here, writeMasked_other _ _ _ other]
        exact tracks.draw w inside
    · have other : drawIndex w ≠ wordIndex d.core.dataPort.addr := by
        intro same
        refine draw ((isDrawWrite_iff active).mpr ⟨w, ?_⟩)
        rw [dmemAddr]
        exact storeTarget_drawIndex inside same.symm
      rw [writeMasked_other _ _ _ other]
      exact tracks.draw w inside

private theorem timer_tracked (tracks : Tracks s d) (quiet : Undisturbed s) (noRst : i.rst = false)
    (allowed : d.core.dataPort.we = true → Allowed size d.core.dataPort) :
    (s.posedge clkPerBit i).timer.en = false ∧ (s.posedge clkPerBit i).timer.pending = false := by
  have port := @Tracks.port s i d tracks
  have unwritten : writesTimer s i = false := by
    rw [← Bool.not_eq_true]
    intro writes
    have active : s.dmemWe i = true := by
      simp only [writesTimer, Bool.and_eq_true] at writes
      exact writes.1.2
    have target := (writesTimer_iff quiet.2 active).mp writes
    obtain ⟨r, register⟩ := Option.ne_none_iff_exists'.mp target
    rw [← storeTarget_timer, show s.dmemAddr i = d.core.dataPort.addr from
      congrArg DataPort.addr port] at register
    have small := allowed ((congrArg DataPort.we port).symm.trans active)
    rwa [Allowed, register] at small
  rw [timer_untouched quiet.2 unwritten]
  obtain ⟨en, pending⟩ := tracks.timer
  simp [TimerRegs.tick, TimerRegs.posedge, TimerRegs.written, noRst, en, pending]

private theorem fetch_tracked (tracks : Tracks s d) (noRst : i.rst = false)
    (confined : Confined imem size G) (steps : ∀ k, G (k + 1) = (G k).posedge imem ())
    (inv : InStep imem T G d a) (valid : s.imemRvalid i = true)
    (inside : d.core.pc.toNat < 4 * size) : s.imemRdata = imem (wordIndex d.core.pc) := by
  have small := confined.small
  have still : d.core.pc = s.imemAddrPrev := by
    rw [← tracks.imemAddr noRst]
    exact eq_of_beq valid
  have low := wordIndex_toNat d.core.pc
  have word : (wordIndex d.core.pc).toNat = d.core.pc.toNat / 4 := wordOf_toNat _
  have index : (DpRam.wordIndex d.core.pc).setWidth 30 = wordIndex d.core.pc := by
    apply BitVec.eq_of_toNat_eq
    rw [setWidth_toNat, low, word]
    omega
  have code : (wordIndex d.core.pc).toNat < size := by omega
  have kept := confined.code_kept steps (posEx d.core a) code
  rw [← inv.dmem, clockDmem] at kept
  have same : d.dmem (wordIndex d.core.pc) = imem (wordIndex d.core.pc) := by
    split_ifs at kept with we
    · rwa [writeMasked_other _ _ _ ((allowed_of_we confined inv we).apart code small)] at kept
    · exact kept
  rw [Soc.imemRdata, Bram.qA, tracks.fetchPort, ← still, tracks.mem, index, same]

private theorem load_tracked (tracks : Tracks s d) (confined : Confined imem size G)
    (inv : InStep imem T G d a) (valid : s.dmemRvalid i = true)
    (load : d.core.exMem.isLoad = true) :
    s.ldData i = d.dmem (wordIndex d.core.dataPort.addr) := by
  have port := @Tracks.port s i d tracks
  have dmemAddr : s.dmemAddr i = d.core.dataPort.addr := congrArg DataPort.addr port
  rw [Soc.dmemRvalid, Bool.and_eq_true, beq_iff_eq, dmemAddr] at valid
  obtain ⟨req, still⟩ := valid
  have mem : d.core.exMem.valid = true := by
    rw [Soc.dmemReq, port] at req
    simp only [DataPort.req, Core.dataPort, ExMem.dataPort, Bool.or_eq_true, Bool.and_eq_true]
      at req
    rcases req with store | load
    · exact store.2
    · exact load.2
  have m := inv.inMem mem
  have small := confined.load _ (m.isLoad ▸ load)
  rw [← m.addr] at small
  change d.core.dataPort.addr.toNat < 0x4000 at small
  have inside : inBram d.core.dataPort.addr = true := (inBram_iff _).mpr (by omega)
  have index : (DpRam.wordIndex d.core.dataPort.addr).setWidth 30 =
      wordIndex d.core.dataPort.addr := by
    apply BitVec.eq_of_toNat_eq
    rw [setWidth_toNat, wordIndex_toNat,
      show (wordIndex d.core.dataPort.addr).toNat = _ from wordOf_toNat _]
    omega
  rw [Soc.ldData, if_pos (by rw [Soc.bramSel, dmemAddr]; exact inside), Soc.bramRdData, Bram.qB,
    tracks.dataPort, ← still, tracks.mem, index]

private theorem tracks_posedge (tracks : Tracks s d) (quiet : Undisturbed s) (noRst : i.rst = false)
    (confined : Confined imem size G) (steps : ∀ k, G (k + 1) = (G k).posedge imem ())
    (inv : InStep imem T G d a) {b : ℕ}
    (next : InStep imem T G (d.posedge imem (benchCycle s i)) b) :
    Tracks (s.posedge clkPerBit i) (d.posedge imem (benchCycle s i)) := by
  have allowed : d.core.dataPort.we = true → Allowed size d.core.dataPort :=
    allowed_of_we confined inv
  obtain ⟨single, draw⟩ := @draw_tracked clkPerBit s i d size tracks noRst allowed
  refine ⟨?_, mem_tracked tracks quiet allowed, draw, rfl, ?_, single,
    timer_tracked tracks quiet noRst allowed⟩
  · obtain ⟨c, core, same⟩ := tracks.core
    have agree : Agree d.core (s.coreIn i) (d.input imem (benchCycle s i)) := by
      refine ⟨⟨noRst, rfl⟩, ⟨tracks.timer.2, rfl⟩, rfl, rfl, rfl, ?_, ?_⟩
      · intro _ load
        change s.ldData i =
          if s.dmemRvalid i then d.dmem (wordIndex d.core.dataPort.addr) else s.ldData i
        split_ifs with valid
        · exact load_tracked tracks confined inv valid load
        · rfl
      · intro fetched base
        change s.imemRdata = if s.imemRvalid i then imem (wordIndex d.core.pc) else s.imemRdata
        split_ifs with valid
        · have front := next.front base
          have pc : d.core.pc = (G (posId (d.posedge imem (benchCycle s i)).core b)).core.pc := by
            have entered : (d.posedge imem (benchCycle s i)).core.ifId.valid = true := by
              change (d.core.posedge _).ifId.valid = true
              rw [fetched]
            rw [← front.ifIdPc entered]
            change _ = (d.core.posedge _).ifId.pc
            rw [fetched]
          apply fetch_tracked tracks noRst confined steps inv valid
          rw [pc]
          exact confined.fetch _
        · rfl
    refine ⟨c.posedge (s.coreIn i), ?_, posedge_upToFlush same agree⟩
    change s.core.posedge (s.coreIn i) = _
    rw [core]
    rfl
  · change DpRam.wordIndex (if s.dbg.fsm.dbgMemValid then s.dbg.fsm.memAddr else s.dmemAddr i) = _
    rw [quiet.1, if_neg Bool.false_ne_true]
    rfl

end Clock

section Run

/-- A board whose pipelined core has just been reset. -/
structure Ready (s : Soc) : Prop where
  core : ∃ csr regfile, s.core = .pipelined (Core.reset csr regfile)
  fetchPort : s.bram.addressAR = DpRam.wordIndex s.imemAddrPrev
  dataPort : s.bram.addressBR = DpRam.wordIndex s.dmemAddrPrev
  single : Single s.vga
  timer : s.timer.en = false ∧ s.timer.pending = false

/-- The first words of BRAM as the bench's instruction memory. -/
def codeOf (size : ℕ) (s : Soc) : Memory := fun w =>
  if w.toNat < size then s.bram.mem (w.setWidth 12) else 0

def dataOf (s : Soc) : Memory := fun w =>
  if w.toNat < 0x1000 then s.bram.mem (w.setWidth 12)
  else if 0x8000400 ≤ w.toNat ∧ w.toNat < 0x8000400 + bufWords then
    s.vga.buf0.mem (w.toNat - 0x8000400)
  else 0

/-- The start of the bench that corresponds to the board. -/
def startOf (s : Soc) : Start where
  regfile := s.core.regfile
  csr :=
    match s.core with
    | .pipelined c => c.csr
    | .singleCycle c => c.csr
  dmem := dataOf s

theorem tracks_ready {s : Soc} (ready : Ready s) : Tracks s (startOf s).dut := by
  obtain ⟨⟨csr, regfile, core⟩, fetchPort, dataPort, single, timer⟩ := ready
  refine ⟨⟨_, core, ?_⟩, ?_, ?_, fetchPort, dataPort, single, timer⟩
  · have same : (startOf s).dut.core = Core.reset csr regfile := by
      simp only [startOf, Start.dut, core, CpuCore.regfile]
      rfl
    rw [same]
    exact UpToFlush.refl _
  · intro a
    have index := setWidth_toNat a
    have bound := a.isLt
    change _ = dataOf s (a.setWidth 30)
    rw [dataOf, if_pos (by omega)]
    congr 1
    apply BitVec.eq_of_toNat_eq
    rw [BitVec.toNat_setWidth, index]
    omega
  · intro w inside
    have index := drawIndex_toNat inside
    change _ = dataOf s (drawIndex w)
    rw [dataOf, if_neg (by omega), if_pos (by omega), index, Nat.add_sub_cancel_left]

variable {clkPerBit size : ℕ} {s : Soc} {input : ℕ → SocIn}

def boardCycles (clkPerBit : ℕ) (s : Soc) (input : ℕ → SocIn) (k : ℕ) : Cycle :=
  benchCycle (Soc.run clkPerBit s input k) (input k)

/-- The board in clock `k` is left to its core. -/
def Free (clkPerBit : ℕ) (s : Soc) (input : ℕ → SocIn) (k : ℕ) : Prop :=
  (input k).rst = false ∧ Undisturbed (Soc.run clkPerBit s input k)

/-- The core has the board to itself when nothing comes in on the debug UART. -/
theorem free_of_silent (idle : s.dbg.fsm.state = .cmdIdle)
    (silent : ∀ k, (input k).rst = false ∧ (input k).rxDone = false) (k : ℕ) :
    Free clkPerBit s input k := by
  have stays : (Soc.run clkPerBit s input k).dbg.fsm.state = .cmdIdle := by
    apply trajectory_invariant (fun t : Soc => t.dbg.fsm.state = .cmdIdle)
      (fun _ i => i.rst = false ∧ i.rxDone = false) idle ?_ k fun j _ => silent j
    rintro t i state ⟨rst, rxDone⟩
    change (if i.rst then DebugRegs.reset _ else DebugRegs.advance _ _ _ (t.debugIn i)).state = _
    have none : (t.debugIn i).rxDone = false := rxDone
    rw [rst, if_neg Bool.false_ne_true, DebugRegs.advance, state]
    simp only [none, Bool.false_eq_true, if_false]
  refine ⟨(silent k).1, ?_, ?_⟩
  · rw [DebugRegs.dbgMemValid, stays]
    rfl
  · rw [DebugRegs.dbgMmioValid, stays]
    rfl

/-- The board runs its program as the bench would under the same schedule. -/
theorem tracks_run (ready : Ready s) (program : TrapFree (codeOf size s))
    (confined : Confined (codeOf size s) size (goldenAfter (codeOf size s) (startOf s))) (n : ℕ)
    (free : ∀ k < n, Free clkPerBit s input k) :
    Tracks (Soc.run clkPerBit s input n)
      (dutAfter (codeOf size s) (startOf s) (boardCycles clkPerBit s input) n) := by
  have steps : ∀ k, goldenAfter (codeOf size s) (startOf s) (k + 1) =
      (goldenAfter (codeOf size s) (startOf s) k).posedge (codeOf size s) () :=
    fun k => trajectory_succ _ _ _ k
  have inStep := fun m => (inStep_after (startOf s) (boardCycles clkPerBit s input)
    program.accesses m fun k _ a inv => program.calm inv _).1
  induction n with
  | zero => exact tracks_ready ready
  | succ n ih =>
    obtain ⟨noRst, quiet⟩ := free n (by omega)
    have next := inStep (n + 1)
    rw [dutAfter, trajectory_succ] at next ⊢
    rw [Soc.run, trajectory_succ]
    exact tracks_posedge (ih fun k less => free k (by omega)) quiet noRst confined steps
      (inStep n) next

/-- Between two clocks the framebuffer has made the store of the clock already. -/
theorem mid_run (ready : Ready s) (program : TrapFree (codeOf size s))
    (confined : Confined (codeOf size s) size (goldenAfter (codeOf size s) (startOf s))) (k : ℕ)
    (free : ∀ j ≤ k, Free clkPerBit s input j) :
    Single (Soc.run clkPerBit s input k).vga ∧
      Single ((Soc.run clkPerBit s input k).vgaMid (input k)) ∧
      ((Soc.run clkPerBit s input k).vgaMid (input k)).buf0.mem =
        (Soc.run clkPerBit s input (k + 1)).vga.buf0.mem := by
  have tracks := tracks_run ready program confined k fun j less => free j (by omega)
  have inv := (inStep_after (startOf s) (boardCycles clkPerBit s input) program.accesses k
    fun j _ a inv => program.calm inv _).1
  have noRst := (free k le_rfl).1
  have ctrl := @no_ctrl (Soc.run clkPerBit s input k) (input k) _ size tracks
    (allowed_of_we confined inv)
  have next := (@buf0_clock _ _ clkPerBit tracks.single noRst ctrl).2
  rw [Soc.run, trajectory_succ]
  refine ⟨tracks.single, single_posedge tracks.single noRst ctrl, ?_⟩
  rw [next, Soc.vgaMid, buf0_posedge tracks.single]

end Run

end RiscvSoc.Fpga.BoardRun
