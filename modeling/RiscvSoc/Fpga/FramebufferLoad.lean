/- GID: RiscvSoc/Fpga/FramebufferLoad
   generality: G
   utility: main
   digest: Framebuffer accesses of the running pipelined core: spacing, latency, and the words
   that loads return. -/

import RiscvSoc.Cpu.Fetched
import RiscvSoc.Fpga.AddressMap
import RiscvSoc.Peripherals.VgaRead

set_option autoImplicit false
set_option relaxedAutoImplicit false

namespace RiscvSoc.Fpga.FramebufferLoad

open RiscvSoc.Clocked.Trajectory
open RiscvSoc.Cpu.Decoder
open RiscvSoc.Cpu.DecoderFacts
open RiscvSoc.Cpu.Datapath
open RiscvSoc.Cpu.Pipeline
open RiscvSoc.Cpu.PipelineEdge
open RiscvSoc.Cpu.Fetched
open RiscvSoc.Peripherals.DebugUart
open RiscvSoc.Peripherals.Uart
open RiscvSoc.Peripherals.VgaFramebuffer
open RiscvSoc.Peripherals.VgaRead
open RiscvSoc.Fpga.RiscvTop
open RiscvSoc.Fpga.AddressMap

section Slots

def Handed (x : ExMem) : Prop :=
  x = {} ∨ ∃ e : IdEx, x = e.toExMem ∧ (e.ctrl = {} ∨ ∃ instr, e.ctrl = Core.idCtrlBus instr)

private theorem rows_lw : ∀ r ∈ decBitsRows, r.flags.op.isLw = true →
    r.flags.op = { isLw := true } ∧ decoderLogic (r.opcode.extractLsb' 2 5) = { isI := true } := by
  decide

private theorem rows_sw : ∀ r ∈ decBitsRows, r.flags.op.isSw = true →
    r.flags.op = { isSw := true } ∧ decoderLogic (r.opcode.extractLsb' 2 5) = { isS := true } := by
  decide

private theorem of_lw {instr : Word} (lw : (opFlags instr).isLw = true) :
    opFlags instr = { isLw := true } ∧ format instr = { isI := true } :=
  of_row OpFlags.isLw (fun op f => op = { isLw := true } ∧ f = { isI := true }) rows_lw rfl lw

private theorem of_sw {instr : Word} (sw : (opFlags instr).isSw = true) :
    opFlags instr = { isSw := true } ∧ format instr = { isS := true } :=
  of_row OpFlags.isSw (fun op f => op = { isSw := true } ∧ f = { isS := true }) rows_sw rfl sw

/-- A word with an operation flag is no CSR instruction. -/
private theorem isCsr_of_opFlags {instr : Word} (op : opFlags instr ≠ {}) :
    isCsr instr = false := by
  rw [← Bool.not_eq_true]
  exact fun csr => op (of_isCsr csr).1

variable {x : ExMem}

private theorem Handed.lw (handed : Handed x) (lw : x.isLw = true) :
    x.isLoad = true ∧ x.isSInstr = false ∧ x.isCsr = false ∧ (x.rd ≠ 0 → x.wrEn = true) ∧
      ∀ ldData, x.wrData ldData = ldData := by
  obtain rfl | ⟨e, rfl, bubble | ⟨instr, decoded⟩⟩ := handed
  · cases lw
  · rw [IdEx.toExMem, bubble] at lw
    cases lw
  · have flag : (opFlags instr).isLw = true := by
      rw [← lw, IdEx.toExMem, decoded]
      rfl
    obtain ⟨op, form⟩ := of_lw flag
    have load : isLoad instr = true := by rw [isLoad, op]; rfl
    have csr : isCsr instr = false := isCsr_of_opFlags (by rw [op]; decide)
    have store : isSInstr instr = false := by rw [isSInstr, form]
    have dest : rdValid instr = true := by simp [rdValid, form]
    simp only [IdEx.toExMem, IdEx.wrEn, ExMem.wrData, ExMem.byteOff, decoded, Core.idCtrlBus, load,
      store, csr, dest, op]
    refine ⟨trivial, trivial, trivial, fun nonzero => if_neg nonzero, fun _ => rfl⟩

private theorem Handed.sw (handed : Handed x) (sw : x.isSw = true) :
    x.isLoad = false ∧ x.isSInstr = true := by
  obtain rfl | ⟨e, rfl, bubble | ⟨instr, decoded⟩⟩ := handed
  · cases sw
  · rw [IdEx.toExMem, bubble] at sw
    cases sw
  · have flag : (opFlags instr).isSw = true := by
      rw [← sw, IdEx.toExMem, decoded]
      rfl
    obtain ⟨op, form⟩ := of_sw flag
    simp only [IdEx.toExMem, decoded, Core.idCtrlBus, isLoad, op, isSInstr, form]
    exact ⟨rfl, trivial⟩

private theorem toExMem_bubble {c : Core} (inert : Inert c) (empty : c.idEx.valid = false) :
    c.idEx.toExMem.result = 0 := by
  obtain ⟨-, -, ctrl⟩ := inert.idEx empty
  change c.idEx.result = 0
  rw [IdEx.result, ctrl]
  rfl

end Slots

section Spacing

/-- What the one clock that every fetch waits for leaves of the pipeline: an instruction in EX
has nothing in front of it in MEM, and the fetch behind it is still under way. In its first
clock in MEM an access therefore finds the address 0 of a bubble before it. -/
structure Spaced (s : Soc) (c : Core) : Prop where
  core : s.core = .pipelined c
  inert : Inert c
  lone : c.idEx.valid = true → c.exMem.valid = false ∧ c.pc ≠ s.imemAddrPrev
  bubble : c.exMem.valid = false → c.exMem.result = 0
  handed : Handed c.exMem

private theorem spaced_reset {s : Soc} {csr : CsrFile} {regfile : RegFile}
    (core : s.core = .pipelined (Core.reset csr regfile)) :
    Spaced s (Core.reset csr regfile) where
  core := core
  inert := inert_reset csr regfile
  lone := fun valid => absurd valid (by simp [Core.reset])
  bubble := fun _ => rfl
  handed := .inl rfl

variable {clkPerBit : ℕ} {s : Soc} {i : SocIn} {c : Core}

private theorem handed_toExMem (inert : Inert c) : Handed c.idEx.toExMem :=
  .inr ⟨_, rfl, inert.decoded⟩

private theorem Spaced.posedge (spaced : Spaced s c) (rst : i.rst = false)
    (run : s.halt i = false) :
    Spaced (s.posedge clkPerBit i) (c.posedge (s.coreIn i)) := by
  have core : (s.posedge clkPerBit i).core = .pipelined (c.posedge (s.coreIn i)) := by
    simp [Soc.posedge, spaced.core, CpuCore.posedge]
  have fetched : (s.posedge clkPerBit i).imemAddrPrev = c.pc := by
    simp [Soc.posedge, Soc.imemAddr, spaced.core, CpuCore.imemAddr, Core.imemAddr, rst]
  have bubble : c.idEx.toExMem.valid = false → c.idEx.toExMem.result = 0 :=
    toExMem_bubble spaced.inert
  have inert : Inert (c.posedge (s.coreIn i)) := inert_next spaced.inert _
  obtain ⟨next, eq⟩ : ∃ next, c.posedge (s.coreIn i) = next := ⟨_, rfl⟩
  have edge := posedge_edge c (s.coreIn i) rst
  rw [eq] at core inert edge ⊢
  cases edge with
  | halted halt => exact absurd (run.symm.trans halt) Bool.false_ne_true
  | waiting _ wait =>
    refine ⟨core, inert, fun valid => ?_, spaced.bubble, spaced.handed⟩
    rw [memWait_of_exMem (spaced.lone valid).1] at wait
    exact absurd wait Bool.false_ne_true
  | flushed =>
    exact ⟨core, inert, fun valid => absurd valid (by simp), bubble, handed_toExMem spaced.inert⟩
  | stalled =>
    exact ⟨core, inert, fun valid => absurd valid (by simp), bubble, handed_toExMem spaced.inert⟩
  | advanced _ _ _ go =>
    refine ⟨core, inert, fun _ => ⟨?_, ?_⟩, bubble, handed_toExMem spaced.inert⟩
    · have answered : s.imemRvalid i = true := by
        simp only [Core.frontStall, Core.ifWait, Soc.coreIn, run, Bool.not_false, Bool.true_and,
          Bool.or_eq_false_iff, Bool.not_eq_false'] at go
        exact go.2
      simp only [Soc.imemRvalid, Soc.imemAddr, spaced.core, CpuCore.imemAddr, Core.imemAddr, rst,
        Bool.false_eq_true, if_false, beq_iff_eq] at answered
      change c.idEx.valid = false
      rw [← Bool.not_eq_true]
      exact fun valid => (spaced.lone valid).2 answered
    · rw [fetched]
      intro same
      bv_omega

end Spacing

section Addresses

/-- The draw and the peek address of word `w`. -/
def bufAddr (peek : Bool) (w : ℕ) : Word :=
  (if peek then 0x20002000 else 0x20001000) + BitVec.ofNat 32 (4 * w)

variable {peek : Bool} {w : ℕ}

private theorem bufAddr_toNat (peek : Bool) (bound : w < bufWords) :
    (bufAddr peek w).toNat = (if peek then 0x20002000 else 0x20001000) + 4 * w := by
  rw [bufWords] at bound
  cases peek with
  | false =>
    simp [bufAddr]
    omega
  | true =>
    simp [bufAddr]
    omega

private theorem bufAddr_fields (peek : Bool) (bound : w < bufWords) :
    inBram (bufAddr peek w) = false ∧ inUart (bufAddr peek w) = false ∧
      inVga (bufAddr peek w) = true ∧
      ((bufAddr peek w).extractLsb' 0 16).extractLsb' 12 4 = (if peek then 0x2 else 0x1) ∧
      VgaRegs.bufWordAddr ((bufAddr peek w).extractLsb' 0 16) = w ∧
      (bufAddr peek w).extractLsb' 0 2 = 0 := by
  have whole := bufAddr_toNat peek bound
  have low : ((bufAddr peek w).extractLsb' 0 16).toNat = (bufAddr peek w).toNat % 65536 := by
    simp [BitVec.extractLsb'_toNat]
  rw [bufWords] at bound
  have vga : inVga (bufAddr peek w) = true := by
    rw [inVga_iff]
    cases peek <;> simp at whole <;> omega
  obtain ⟨bram, uart⟩ := inVga_apart _ vga
  refine ⟨bram, uart, vga, ?_, ?_, ?_⟩
  · rw [← BitVec.toNat_inj, BitVec.extractLsb'_toNat, low, Nat.shiftRight_eq_div_pow]
    cases peek <;> simp at whole ⊢ <;> omega
  · rw [VgaRegs.bufWordAddr, BitVec.extractLsb'_toNat, low, Nat.shiftRight_eq_div_pow]
    cases peek <;> simp at whole ⊢ <;> omega
  · rw [← BitVec.toNat_inj, BitVec.extractLsb'_toNat, Nat.shiftRight_eq_div_pow]
    cases peek <;> simp at whole ⊢ <;> omega

private theorem bufAddr_ne_zero (bound : w < bufWords) : bufAddr peek w ≠ 0 := by
  intro zero
  have whole := bufAddr_toNat peek bound
  rw [zero] at whole
  cases peek <;> simp at whole <;> omega

private theorem wordOf_of_draw {s : Soc} {i : SocIn} (bound : w < bufWords)
    (write : VgaRegs.isDrawWrite (s.vgaIn i) = true)
    (word : VgaRegs.cpuWordAddr (s.vgaIn i).addr = w) :
    s.dmemWe i = true ∧ wordOf (s.dmemAddr i) = wordOf (bufAddr false w) := by
  simp only [VgaRegs.isDrawWrite, Soc.vgaIn, Soc.vgaSel, Bool.and_eq_true, beq_iff_eq] at write word
  obtain ⟨⟨⟨sel, we⟩, page⟩, valid⟩ := write
  refine ⟨we, ?_⟩
  have target : vgaTarget ((s.dmemAddr i).extractLsb' 0 16) = some (.vgaDraw w) := by
    rw [vgaTarget, if_neg, page, valid, word]
    · rfl
    · intro ctrl
      rw [ctrl] at page
      exact absurd page (by decide)
  have inside := (inVga_iff _).mp sel
  obtain ⟨first, offset⟩ := vgaTarget_draw target
  have whole := bufAddr_toNat false bound
  rw [wordOf_iff, whole, if_neg Bool.false_ne_true]
  rw [bufWords] at bound
  omega

end Addresses

section Access

/-- The access in EX/MEM, to the address `a`, completes in this clock. -/
structure Completes (s : Soc) (i : SocIn) (c : Core) (a : Word) : Prop where
  core : s.core = .pipelined c
  valid : c.exMem.valid = true
  addr : c.exMem.result = a
  ready : c.memWait (s.coreIn i) = false

variable {clkPerBit : ℕ} {s : Soc} {i j : SocIn} {b c : Core} {a : Word} {peek : Bool} {w : ℕ}

theorem dataPort_of_core (core : s.core = .pipelined c) : s.dataPort i = c.exMem.dataPort := by
  rw [Soc.dataPort, core]
  rfl

theorem dmemAddr_of_core (core : s.core = .pipelined c) : s.dmemAddr i = c.exMem.result := by
  rw [Soc.dmemAddr, dataPort_of_core core]
  rfl

/-- An access completes in the second of its two clocks in MEM: in the first one the address
has just changed. -/
private theorem Spaced.entered (spaced : Spaced s b) (rst : i.rst = false) (run : s.halt i = false)
    (done : Completes (s.posedge clkPerBit i) j c a) (req : c.exMem.dataPort.req = true)
    (nonzero : a ≠ 0) : b.exMem = c.exMem := by
  obtain rfl : b.posedge (s.coreIn i) = c := by
    have core := (@Spaced.posedge clkPerBit _ _ _ spaced rst run).core
    rw [done.core] at core
    exact (CpuCore.pipelined.inj core).symm
  have still : (b.posedge (s.coreIn i)).exMem.result = b.exMem.result := by
    have valid : (s.posedge clkPerBit i).dmemRvalid j = true := by
      have ready := done.ready
      rw [Core.memWait, Core.dataPort, req, Bool.true_and, Bool.not_eq_false'] at ready
      exact ready
    simp only [Soc.dmemRvalid, Bool.and_eq_true, beq_iff_eq] at valid
    rw [← dmemAddr_of_core done.core, valid.2]
    exact dmemAddr_of_core spaced.core
  by_cases full : b.idEx.valid = true
  · rw [spaced.bubble (spaced.lone full).1] at still
    exact absurd (done.addr.symm.trans still) nonzero
  · have valid := done.valid
    obtain ⟨next, eq⟩ : ∃ next, b.posedge (s.coreIn i) = next := ⟨_, rfl⟩
    have edge := posedge_edge b (s.coreIn i) rst
    rw [eq] at edge valid ⊢
    cases edge with
    | halted | waiting => rfl
    | flushed | stalled | advanced => exact absurd valid full

private theorem memWb_ready {i : CoreIn} (rst : i.rst = false) (run : i.halt = false)
    (ready : c.memWait i = false) : (c.posedge i).memWb = c.exMem.toMemWb i.ldData := by
  simp [Core.posedge, rst, run, ready]

private theorem regfile_running {i : CoreIn} (run : i.halt = false) :
    (c.posedge i).regfile = c.memWb.commitReg c.csr i.timerIrq c.regfile := by
  simp [Core.posedge, run]

private theorem commitReg_rd {x : MemWb} {csr : CsrFile} {irq : Bool} {r : RegFile}
    (write : x.wrEn = true) (dest : x.rd ≠ 0) (valid : x.valid = true) (notCsr : x.isCsr = false) :
    x.commitReg csr irq r x.rd = x.wrData := by
  rw [MemWb.commitReg, write, bne_iff_ne.mpr dest, valid, MemWb.wbData, notCsr]
  exact if_pos rfl

private theorem reads_of_lw (core : s.core = .pipelined c) (rst : i.rst = false)
    (handed : Handed c.exMem)
    (lw : c.exMem.isLw = true) (valid : c.exMem.valid = true)
    (addr : c.exMem.result = bufAddr peek w) (bound : w < bufWords) :
    Reads (s.vgaIn i) peek w ∧ VgaRegs.isDrawWrite (s.vgaIn i) = false := by
  obtain ⟨load, store, -⟩ := handed.lw lw
  obtain ⟨-, -, vga, region, word, -⟩ := bufAddr_fields peek bound
  have here : s.dmemAddr i = bufAddr peek w := (dmemAddr_of_core core).trans addr
  have re : s.dmemRe i = true := by
    rw [Soc.dmemRe, dataPort_of_core core, ExMem.dataPort, load, valid]
    rfl
  have we : s.dmemWe i = false := by
    rw [Soc.dmemWe, dataPort_of_core core, ExMem.dataPort, store]
    rfl
  refine ⟨⟨rst, ?_, re, ?_, ?_, bound⟩, ?_⟩
  · rw [Soc.vgaIn, Soc.vgaSel, here, vga]
  · rw [Soc.vgaIn, here, region]
  · rw [Soc.vgaIn, here, word]
  · simp [VgaRegs.isDrawWrite, Soc.vgaIn, we]

private theorem ldData_vga (core : s.core = .pipelined c) (mmio : s.dbg.fsm.dbgMmioValid = false)
    (addr : c.exMem.result = bufAddr peek w) (bound : w < bufWords) :
    s.ldData i = (s.vgaMid i).rdata := by
  obtain ⟨bram, uart, vga, -⟩ := bufAddr_fields peek bound
  have here : s.dmemAddr i = bufAddr peek w := (dmemAddr_of_core core).trans addr
  rw [Soc.ldData, Soc.bramSel, Soc.uartSel, Soc.vgaSel, Soc.periphAddr, mmio,
    if_neg Bool.false_ne_true, here, bram, uart, vga]
  rfl

private theorem draws_of_sw (core : s.core = .pipelined c) (handed : Handed c.exMem)
    (sw : c.exMem.isSw = true) (valid : c.exMem.valid = true)
    (addr : c.exMem.result = bufAddr false w) (bound : w < bufWords) :
    VgaRegs.isDrawWrite (s.vgaIn i) = true ∧ VgaRegs.cpuWordAddr (s.vgaIn i).addr = w ∧
      (s.vgaIn i).wdata = c.exMem.src2Value := by
  obtain ⟨-, store⟩ := handed.sw sw
  obtain ⟨-, -, vga, region, word, aligned⟩ := bufAddr_fields false bound
  have here : s.dmemAddr i = bufAddr false w := (dmemAddr_of_core core).trans addr
  have we : s.dmemWe i = true := by
    rw [Soc.dmemWe, dataPort_of_core core, ExMem.dataPort, store, valid]
    rfl
  have inside : VgaRegs.bufWordAddrValid ((bufAddr false w).extractLsb' 0 16) = true := by
    rw [VgaRegs.bufWordAddrValid, word]
    exact decide_eq_true bound
  refine ⟨?_, ?_, ?_⟩
  · rw [VgaRegs.isDrawWrite, Soc.vgaIn, Soc.vgaSel, here, vga, we, region, inside]
    rfl
  · rw [VgaRegs.cpuWordAddr, Soc.vgaIn, here, if_pos inside, word]
  · have data : (s.vgaIn i).wdata = storeData c.exMem.src2Value c.exMem.byteOff := by
      rw [Soc.vgaIn, Soc.dmemWdata, dataPort_of_core core, ExMem.dataPort]
    rw [data, ExMem.byteOff, addr, aligned]
    exact BitVec.shiftLeft_zero _

end Access

section Runs

variable (clkPerBit : ℕ) (s : Soc) (input : ℕ → SocIn)

/-- A board whose core has not run since its last reset: nothing is in the pipeline. -/
structure Unstarted (s : Soc) : Prop where
  core : ∃ csr regfile, s.core = .pipelined (Core.reset csr regfile)
  access : s.dbg.fsm.HaltedAccess

/-- `halt` stays low. -/
def Running : Prop := ∀ n, (Soc.run clkPerBit s input n).dbg.fsm.halt = false

/-- The instruction in EX/MEM. -/
def InMem (s : Soc) (x : ExMem) : Prop := ∃ c, s.core = .pipelined c ∧ c.exMem = x

/-- An sw to the draw address of word `w` and an lw from it into a register, which is in MEM in
the clocks `m` and `m + 1`, with no store to that word in between. -/
structure ReadBack (p m : ℕ) (b c : Core) (w : ℕ) : Prop where
  bound : w < bufWords
  sw : b.exMem.isSw = true
  stored : Completes (Soc.run clkPerBit s input p) (input p) b (bufAddr false w)
  lw : c.exMem.isLw = true
  loaded : Completes (Soc.run clkPerBit s input (m + 1)) (input (m + 1)) c (bufAddr false w)
  dest : c.exMem.rd ≠ 0
  later : p ≤ m
  alone : ∀ k, p < k → k ≤ m → (Soc.run clkPerBit s input k).dmemWe (input k) = true →
    wordOf ((Soc.run clkPerBit s input k).dmemAddr (input k)) ≠ wordOf (bufAddr false w)

variable {clkPerBit s input}

private theorem rst_of_running (running : Running clkPerBit s input) (n : ℕ) :
    (input n).rst = false := by
  rw [← Bool.not_eq_true]
  intro rst
  have next := running (n + 1)
  simp only [trajectory_succ] at next
  simp [Soc.posedge, DbgUart.posedge, Soc.debugIn, rst, DebugRegs.reset] at next

private theorem halt_of_running (running : Running clkPerBit s input) (n : ℕ) :
    (Soc.run clkPerBit s input n).halt (input n) = false := by
  rw [Soc.halt, running n, Bool.false_and]

private theorem haltedAccess_of_unstarted (unstarted : Unstarted s) (n : ℕ) :
    (Soc.run clkPerBit s input n).dbg.fsm.HaltedAccess := by
  induction n with
  | zero => exact unstarted.access
  | succ n ih => exact DbgUart.haltedAccess_posedge ih _

private theorem dbgMmioValid_of_running (unstarted : Unstarted s)
    (running : Running clkPerBit s input)
    (n : ℕ) :
    (Soc.run clkPerBit s input n).dbg.fsm.dbgMmioValid = false := by
  rw [← Bool.not_eq_true]
  intro valid
  have halt := haltedAccess_of_unstarted unstarted n (DebugRegs.inAccess_of_dbgMmioValid valid)
  exact absurd ((running n).symm.trans halt) Bool.false_ne_true

private theorem spaced_run (unstarted : Unstarted s) (running : Running clkPerBit s input) (n : ℕ) :
    ∃ c, Spaced (Soc.run clkPerBit s input n) c := by
  induction n with
  | zero =>
    obtain ⟨csr, regfile, core⟩ := unstarted.core
    exact ⟨_, spaced_reset core⟩
  | succ n ih =>
    obtain ⟨c, spaced⟩ := ih
    exact ⟨_, spaced.posedge (rst_of_running running n) (halt_of_running running n)⟩

private theorem completes_entered (unstarted : Unstarted s) (running : Running clkPerBit s input)
    {n : ℕ}
    {c : Core} {a : Word} (done : Completes (Soc.run clkPerBit s input n) (input n) c a)
    (req : c.exMem.dataPort.req = true) (nonzero : a ≠ 0) :
    ∃ m, n = m + 1 ∧ InMem (Soc.run clkPerBit s input m) c.exMem := by
  cases n with
  | zero =>
    obtain ⟨csr, regfile, core⟩ := unstarted.core
    have same : CpuCore.pipelined (Core.reset csr regfile) = .pipelined c :=
      core.symm.trans done.core
    obtain rfl := CpuCore.pipelined.inj same
    exact absurd done.valid (by simp [Core.reset])
  | succ m =>
    obtain ⟨b, spaced⟩ := spaced_run unstarted running m
    exact ⟨m, rfl, b, spaced.core,
      spaced.entered (rst_of_running running m) (halt_of_running running m) done req nonzero⟩

private theorem regfile_of_lw (unstarted : Unstarted s) (running : Running clkPerBit s input)
    {n : ℕ}
    {c : Core} {a : Word} (lw : c.exMem.isLw = true)
    (done : Completes (Soc.run clkPerBit s input n) (input n) c a) (dest : c.exMem.rd ≠ 0) :
    (Soc.run clkPerBit s input (n + 2)).core.regfile c.exMem.rd =
      (Soc.run clkPerBit s input n).ldData (input n) := by
  obtain ⟨c', spaced⟩ := spaced_run unstarted running n
  obtain rfl : c' = c := CpuCore.pipelined.inj (spaced.core.symm.trans done.core)
  obtain ⟨-, -, notCsr, write, whole⟩ := spaced.handed.lw lw
  let i := (Soc.run clkPerBit s input n).coreIn (input n)
  let j := (Soc.run clkPerBit s input (n + 1)).coreIn (input (n + 1))
  have next : Spaced (Soc.run clkPerBit s input (n + 1)) (c'.posedge i) :=
    spaced.posedge (rst_of_running running n) (halt_of_running running n)
  have last : Spaced (Soc.run clkPerBit s input (n + 2)) ((c'.posedge i).posedge j) :=
    next.posedge (rst_of_running running (n + 1)) (halt_of_running running (n + 1))
  rw [last.core, CpuCore.regfile, regfile_running (halt_of_running running (n + 1)),
    memWb_ready (rst_of_running running n) (halt_of_running running n) done.ready]
  exact (commitReg_rd (write dest) dest done.valid notCsr).trans (whole _)

/-- The framebuffer in the four edges of a load's two clocks in MEM: its buffers stand still and
the word reaches the core. -/
private theorem ldData_of_lw (unstarted : Unstarted s) (running : Running clkPerBit s input) {m : ℕ}
    {c : Core} {peek : Bool} {w : ℕ} (bound : w < bufWords) (lw : c.exMem.isLw = true)
    (done : Completes (Soc.run clkPerBit s input (m + 1)) (input (m + 1)) c (bufAddr peek w))
    (entered : InMem (Soc.run clkPerBit s input m) c.exMem) :
    (∀ v ∈ [(Soc.run clkPerBit s input m).vga, (Soc.run clkPerBit s input (m + 1)).vga,
        (Soc.run clkPerBit s input (m + 1)).vgaMid (input (m + 1))],
      ∀ buf, bufMem buf v = bufMem buf ((Soc.run clkPerBit s input m).vgaMid (input m))) ∧
    (Soc.run clkPerBit s input (m + 1)).ldData (input (m + 1)) =
      selWord peek ((Soc.run clkPerBit s input m).vgaMid (input m)) w := by
  obtain ⟨b, core, same⟩ := entered
  obtain ⟨c', spaced⟩ := spaced_run unstarted running (m + 1)
  obtain rfl : c' = c := CpuCore.pipelined.inj (spaced.core.symm.trans done.core)
  obtain ⟨reads, quiet⟩ := reads_of_lw core (rst_of_running running m) (same ▸ spaced.handed)
    (same ▸ lw) (same ▸ done.valid) (same ▸ done.addr) bound
  obtain ⟨-, quiet'⟩ := reads_of_lw spaced.core (rst_of_running running (m + 1)) spaced.handed lw
    done.valid done.addr bound
  have mid (buf : Bool) : bufMem buf ((Soc.run clkPerBit s input m).vgaMid (input m)) =
      bufMem buf (Soc.run clkPerBit s input m).vga := bufMem_quiet quiet buf
  have next (buf : Bool) : bufMem buf (Soc.run clkPerBit s input (m + 1)).vga =
      bufMem buf ((Soc.run clkPerBit s input m).vgaMid (input m)) := bufMem_quiet quiet buf
  have last (buf : Bool) :
      bufMem buf ((Soc.run clkPerBit s input (m + 1)).vgaMid (input (m + 1))) =
        bufMem buf (Soc.run clkPerBit s input (m + 1)).vga := bufMem_quiet quiet' buf
  constructor
  · intro v member buf
    simp only [List.mem_cons, List.not_mem_nil, or_false] at member
    rcases member with rfl | rfl | rfl
    · exact (mid buf).symm
    · exact next buf
    · exact (last buf).trans (next buf)
  · rw [ldData_vga spaced.core (dbgMmioValid_of_running unstarted running (m + 1)) done.addr bound]
    exact rdata_posedge reads (rst_of_running running (m + 1))

private theorem bufMem_of_sw (unstarted : Unstarted s) (running : Running clkPerBit s input)
    {p m : ℕ}
    {b : Core} {w : ℕ} (bound : w < bufWords) (sw : b.exMem.isSw = true)
    (stored : Completes (Soc.run clkPerBit s input p) (input p) b (bufAddr false w))
    (later : p < m)
    (alone : ∀ k, p < k → k < m → (Soc.run clkPerBit s input k).dmemWe (input k) = true →
      wordOf ((Soc.run clkPerBit s input k).dmemAddr (input k)) ≠ wordOf (bufAddr false w)) :
    bufMem ((Soc.run clkPerBit s input p).vgaMid (input p)).drawBufSel
      (Soc.run clkPerBit s input m).vga w = b.exMem.src2Value := by
  induction m, later using Nat.le_induction with
  | base =>
    obtain ⟨b', spaced⟩ := spaced_run unstarted running p
    obtain rfl : b' = b := CpuCore.pipelined.inj (spaced.core.symm.trans stored.core)
    obtain ⟨write, word, data⟩ := draws_of_sw (i := input p) spaced.core spaced.handed sw
      stored.valid stored.addr bound
    rw [← word, ← data]
    exact bufMem_drawn write
  | succ m later ih =>
    rw [← ih fun k lo hi => alone k lo (by omega)]
    have other : VgaRegs.isDrawWrite ((Soc.run clkPerBit s input m).vgaIn (input m)) = true →
        VgaRegs.cpuWordAddr ((Soc.run clkPerBit s input m).vgaIn (input m)).addr ≠ w := by
      intro write word
      obtain ⟨we, same⟩ := wordOf_of_draw bound write word
      exact alone m later (by omega) we same
    exact (bufMem_other other _).trans (bufMem_other other _)

private theorem ReadBack.later_lt (unstarted : Unstarted s) (running : Running clkPerBit s input)
    {p m : ℕ} {b c : Core} {w : ℕ} (pair : ReadBack clkPerBit s input p m b c w)
    (entered : InMem (Soc.run clkPerBit s input m) c.exMem) : p < m := by
  refine lt_of_le_of_ne pair.later fun same => ?_
  subst same
  obtain ⟨c', core, slot⟩ := entered
  obtain ⟨b', spaced⟩ := spaced_run unstarted running p
  obtain rfl : b' = b := CpuCore.pipelined.inj (spaced.core.symm.trans pair.stored.core)
  obtain rfl : c' = b' := CpuCore.pipelined.inj (core.symm.trans pair.stored.core)
  have load := (spaced.handed.lw (slot ▸ pair.lw)).1
  exact absurd (load.symm.trans (spaced.handed.sw pair.sw).1) (by decide)

/-- A load from the framebuffer spends two clocks in MEM, in which both buffers stand still, and
returns the addressed word of the buffer that draw_buf_sel (or its complement, for a peek
address) selects at the second of the four framebuffer edges. What an sw has drawn is read back
as long as no other store names the word and the draw addresses map to the same buffer. -/
theorem framebuffer_loads (unstarted : Unstarted s) (running : Running clkPerBit s input) :
    (∀ n c peek w, w < bufWords → c.exMem.isLw = true →
      Completes (Soc.run clkPerBit s input n) (input n) c (bufAddr peek w) →
      ∃ m, n = m + 1 ∧ InMem (Soc.run clkPerBit s input m) c.exMem ∧
        (∀ v ∈ [(Soc.run clkPerBit s input m).vga, (Soc.run clkPerBit s input n).vga,
            (Soc.run clkPerBit s input n).vgaMid (input n)],
          ∀ buf, bufMem buf v = bufMem buf ((Soc.run clkPerBit s input m).vgaMid (input m))) ∧
        (c.exMem.rd ≠ 0 →
          (Soc.run clkPerBit s input (n + 2)).core.regfile c.exMem.rd =
            selWord peek ((Soc.run clkPerBit s input m).vgaMid (input m)) w)) ∧
    ∀ p m b c w, ReadBack clkPerBit s input p m b c w →
      ((Soc.run clkPerBit s input m).vgaMid (input m)).drawBufSel =
        ((Soc.run clkPerBit s input p).vgaMid (input p)).drawBufSel →
      (Soc.run clkPerBit s input (m + 3)).core.regfile c.exMem.rd = b.exMem.src2Value := by
  have entered {n : ℕ} {c : Core} {peek : Bool} {w : ℕ} (bound : w < bufWords)
      (lw : c.exMem.isLw = true)
      (done : Completes (Soc.run clkPerBit s input n) (input n) c (bufAddr peek w)) :
      ∃ m, n = m + 1 ∧ InMem (Soc.run clkPerBit s input m) c.exMem := by
    obtain ⟨c', spaced⟩ := spaced_run unstarted running n
    obtain rfl : c' = c := CpuCore.pipelined.inj (spaced.core.symm.trans done.core)
    have load := (spaced.handed.lw lw).1
    refine completes_entered unstarted running done ?_ (bufAddr_ne_zero bound)
    rw [DataPort.req, ExMem.dataPort, load, done.valid, Bool.and_self, Bool.or_true]
  constructor
  · intro n c peek w bound lw done
    obtain ⟨m, rfl, before⟩ := entered bound lw done
    obtain ⟨held, word⟩ := ldData_of_lw unstarted running bound lw done before
    exact ⟨m, rfl, before, held,
      fun dest => (regfile_of_lw unstarted running lw done dest).trans word⟩
  · intro p m b c w pair same
    obtain ⟨m', eq, before⟩ := entered pair.bound pair.lw pair.loaded
    obtain rfl : m = m' := Nat.succ.inj eq
    obtain ⟨held, word⟩ := ldData_of_lw unstarted running pair.bound pair.lw pair.loaded before
    have later := pair.later_lt unstarted running before
    have drawn := bufMem_of_sw unstarted running pair.bound pair.sw pair.stored later
      fun k lo hi => pair.alone k lo (by omega)
    refine (regfile_of_lw unstarted running pair.lw pair.loaded pair.dest).trans (word.trans ?_)
    rw [selWord, bufSel, if_neg Bool.false_ne_true, same, ← drawn]
    exact congrFun (held _ (by simp) _).symm w

end Runs

section Boards

def resumedBoard (program : List Word) : Soc :=
  { Soc.powerUp .pipelinedZero program with
    dbg := { fsm := { DebugRegs.reset 0 with halt := false }, tx := idleTx } }

def quiet : ℕ → SocIn := fun _ => {}

private theorem advance_silent (clkPerBit : ℕ) {r : DebugRegs} (txBusy : Bool) {i : DebugIn}
    (idle : r.state = .cmdIdle) (silent : i.rxDone = false) :
    (r.advance clkPerBit txBusy i).state = .cmdIdle ∧
      (r.advance clkPerBit txBusy i).halt = r.halt := by
  simp [DebugRegs.advance, idle, silent]

private theorem running_quiet (program : List Word) : Running 2 (resumedBoard program) quiet := by
  intro n
  have idle : (Soc.run 2 (resumedBoard program) quiet n).dbg.fsm.state = .cmdIdle ∧
      (Soc.run 2 (resumedBoard program) quiet n).dbg.fsm.halt = false := by
    induction n with
    | zero => exact ⟨rfl, rfl⟩
    | succ n ih =>
      have still := advance_silent 2 (Soc.run 2 (resumedBoard program) quiet n).dbg.tx.busy
        (i := (Soc.run 2 (resumedBoard program) quiet n).debugIn (quiet n)) ih.1 rfl
      exact ⟨still.1, still.2.trans ih.2⟩
  exact idle.2

private theorem unstarted_resumed (program : List Word) : Unstarted (resumedBoard program) :=
  ⟨⟨_, _, rfl⟩, fun access => absurd access Bool.false_ne_true⟩

def pipelinedCore (s : Soc) : Core :=
  match s.core with
  | .pipelined c => c
  | .singleCycle _ => Core.reset zeroCsr fun _ => 0

def isPipelined (s : Soc) : Bool :=
  match s.core with
  | .pipelined _ => true
  | .singleCycle _ => false

private theorem core_of_isPipelined {s : Soc} (pipelined : isPipelined s = true) :
    s.core = .pipelined (pipelinedCore s) := by
  revert pipelined
  rw [isPipelined, pipelinedCore]
  cases s.core with
  | pipelined c => exact fun _ => rfl
  | singleCycle c => exact fun single => absurd single Bool.false_ne_true

/-- `lui x1, 0x20001; addi x2, x0, 5; sw x2, 0(x1); lw x5, 0(x1)`. -/
def drawProgram : List Word := [0x200010b7, 0x00500113, 0x0020a023, 0x0000a283]

/-- The same with `lui x3, 0x20000; addi x4, x0, 1` before the store and `sw x4, 0(x3)` behind
it, which turns on double buffering. -/
def modeProgram : List Word :=
  [0x200010b7, 0x00500113, 0x200001b7, 0x00100213, 0x0020a023, 0x0041a023, 0x0000a283]

private theorem completes_pipelined {s : Soc} {i : SocIn} {a : Word}
    (done : isPipelined s = true ∧ (pipelinedCore s).exMem.valid = true ∧
      (pipelinedCore s).exMem.result = a ∧ (pipelinedCore s).memWait (s.coreIn i) = false) :
    Completes s i (pipelinedCore s) a :=
  ⟨core_of_isPipelined done.1, done.2.1, done.2.2.1, done.2.2.2⟩

private theorem readBack_draw : ReadBack 2 (resumedBoard drawProgram) quiet 11 13
    (pipelinedCore (Soc.run 2 (resumedBoard drawProgram) quiet 11))
    (pipelinedCore (Soc.run 2 (resumedBoard drawProgram) quiet 14)) 0 where
  bound := by decide
  sw := by decide +kernel
  stored := completes_pipelined (by decide +kernel)
  lw := by decide +kernel
  loaded := completes_pipelined (by decide +kernel)
  dest := by decide +kernel
  later := by decide
  alone := by
    have apart : ∀ k < 14, 11 < k →
        (Soc.run 2 (resumedBoard drawProgram) quiet k).dmemWe (quiet k) = true →
        wordOf ((Soc.run 2 (resumedBoard drawProgram) quiet k).dmemAddr (quiet k)) ≠
          wordOf (bufAddr false 0) := by
      decide +kernel
    exact fun k lo hi => apart k (by omega) lo

theorem framebuffer_loads_draw :
    (Soc.run 2 (resumedBoard drawProgram) quiet 16).core.regfile 5 = 5 := by
  have returned := (framebuffer_loads (unstarted_resumed drawProgram)
    (running_quiet drawProgram)).2 11 13 _ _ 0 readBack_draw (by decide +kernel)
  have dest : (pipelinedCore (Soc.run 2 (resumedBoard drawProgram) quiet 14)).exMem.rd = 5 := by
    decide +kernel
  have drawn :
      (pipelinedCore (Soc.run 2 (resumedBoard drawProgram) quiet 11)).exMem.src2Value = 5 := by
    decide +kernel
  exact (congrArg (Soc.run 2 (resumedBoard drawProgram) quiet 16).core.regfile dest).symm.trans
    (returned.trans drawn)

def NoSwap (clkPerBit : ℕ) (s : Soc) (input : ℕ → SocIn) (p m : ℕ) : Prop :=
  ∀ k, p ≤ k → k ≤ m + 1 →
    (Soc.run clkPerBit s input k).vga.frontBuf = (Soc.run clkPerBit s input p).vga.frontBuf ∧
    ((Soc.run clkPerBit s input k).vgaMid (input k)).frontBuf =
      (Soc.run clkPerBit s input p).vga.frontBuf

private theorem readBack_mode : ReadBack 2 (resumedBoard modeProgram) quiet 13 18
    (pipelinedCore (Soc.run 2 (resumedBoard modeProgram) quiet 13))
    (pipelinedCore (Soc.run 2 (resumedBoard modeProgram) quiet 19)) 0 where
  bound := by decide
  sw := by decide +kernel
  stored := completes_pipelined (by decide +kernel)
  lw := by decide +kernel
  loaded := completes_pipelined (by decide +kernel)
  dest := by decide +kernel
  later := by decide
  alone := by
    have apart : ∀ k < 19, 13 < k →
        (Soc.run 2 (resumedBoard modeProgram) quiet k).dmemWe (quiet k) = true →
        wordOf ((Soc.run 2 (resumedBoard modeProgram) quiet k).dmemAddr (quiet k)) ≠
          wordOf (bufAddr false 0) := by
      decide +kernel
    exact fun k lo hi => apart k (by omega) lo

/-- Turning on double buffering moves the draw addresses to the other buffer without a swap:
the word stored before is not read back. -/
theorem mode_change_not_read_back :
    ¬ ∀ p m b c w, ReadBack 2 (resumedBoard modeProgram) quiet p m b c w →
      NoSwap 2 (resumedBoard modeProgram) quiet p m →
      (Soc.run 2 (resumedBoard modeProgram) quiet (m + 3)).core.regfile c.exMem.rd =
        b.exMem.src2Value := by
  intro returns
  have still : ∀ k < 20, 13 ≤ k →
      (Soc.run 2 (resumedBoard modeProgram) quiet k).vga.frontBuf =
        (Soc.run 2 (resumedBoard modeProgram) quiet 13).vga.frontBuf ∧
      ((Soc.run 2 (resumedBoard modeProgram) quiet k).vgaMid (quiet k)).frontBuf =
        (Soc.run 2 (resumedBoard modeProgram) quiet 13).vga.frontBuf := by
    decide +kernel
  have returned := returns 13 18 _ _ 0 readBack_mode fun k lo hi => still k (by omega) lo
  have lost : (Soc.run 2 (resumedBoard modeProgram) quiet 21).core.regfile
        (pipelinedCore (Soc.run 2 (resumedBoard modeProgram) quiet 19)).exMem.rd ≠
      (pipelinedCore (Soc.run 2 (resumedBoard modeProgram) quiet 13)).exMem.src2Value := by
    decide +kernel
  exact lost returned

end Boards

end RiscvSoc.Fpga.FramebufferLoad
