/- GID: RiscvSoc/Testbench/Lockstep
   generality: G
   utility: support
   digest: The pipeline runs in step with the golden model, each stage at its own instruction. -/

import RiscvSoc.Cpu.CsrOrder
import RiscvSoc.Cpu.StageImage
import RiscvSoc.Testbench.TbDiff

set_option autoImplicit false
set_option relaxedAutoImplicit false

namespace RiscvSoc.Testbench.Lockstep

open RiscvSoc.Cpu.Decoder
open RiscvSoc.Cpu.Datapath
open RiscvSoc.Cpu.SingleCycle
open RiscvSoc.Cpu.Pipeline
open RiscvSoc.Cpu.PipelineEdge
open RiscvSoc.Cpu.DecoderFacts
open RiscvSoc.Cpu.CsrOrder
open RiscvSoc.Cpu.StageImage
open RiscvSoc.Testbench.TbDiff
open RiscvSoc.Memory.ByteLanes

section Position

/-- With `a` instructions retired, the position in golden order of the instruction that sits in
MEM, or will be the next to enter it. -/
def posMem (s : Core) (a : ℕ) : ℕ := a + s.memWb.valid.toNat

def posEx (s : Core) (a : ℕ) : ℕ := posMem s a + s.exMem.valid.toNat

def posId (s : Core) (a : ℕ) : ℕ := posEx s a + s.idEx.valid.toNat

def posIf (s : Core) (a : ℕ) : ℕ := posId s a + s.ifId.valid.toNat

def retired (s : Core) (i : CoreIn) (a : ℕ) : ℕ := if i.halt then a else posMem s a

end Position

/-- The programs that access only the CSRs in `T`, where mip never counts, and mstatus only in a
program without privileged words. -/
structure Accesses (imem : Memory) (T : CsrAddr → Prop) : Prop where
  csr : ∀ w, isCsr (imem w) = true → T (csrAddr (imem w))
  mtvec : T aMtvec
  mepc : T aMepc
  mip : ¬ T aMip
  mstatus : T aMstatus → ∀ w, isEcall (imem w) = false ∧ isEbreak (imem w) = false ∧
    isMret (imem w) = false

/-- The in-order machine executes an instruction's CSR effects as the single-cycle core does, the
stacking in mstatus apart. -/
private theorem archNext_inEx {g : ScCore} {instr : Word} {s : Core} {b : CsrAddr}
    (ex : InEx g instr s.idEx) (notMip : isCsr instr = true → csrAddr instr ≠ aMip)
    (notMstatus : (isEcall instr || isEbreak instr || isMret instr) = true → b ≠ aMstatus) :
    (archNext s g.csr).read b = (g.nextCsr instr).read b := by
  simp only [archNext, ex.ctrl, Core.idCtrlBus, ScCore.nextCsr]
  by_cases csr : isCsr instr = true
  · obtain ⟨-, -, ecall, ebreak, mret⟩ := of_isCsr csr
    have wb : InWb g instr 0 (s.idEx.toExMem.toMemWb 0) :=
      ⟨_, 0, ⟨_, ex, rfl⟩, fun _ => rfl, rfl⟩
    have value := wb.csrNewVal csr (csrRdata_read (notMip csr) false)
    simp only [ecall, ebreak, mret, csr, Bool.or_self, Bool.false_eq_true, if_false, if_true]
    rw [MemWb.commitCsr, wb.isCsr, csr, wb.valid, Bool.and_self, if_pos rfl, wb.csrAddr, value]
  · rw [Bool.not_eq_true] at csr
    have quiet : (s.idEx.toExMem.toMemWb 0).writesCsr b = false := by
      simp [MemWb.writesCsr, ExMem.toMemWb, IdEx.toExMem, ex.ctrl, Core.idCtrlBus, csr]
    simp only [csr, Bool.false_eq_true, if_false]
    split
    · rename_i trap
      have notMstatus := notMstatus (by simp [trap])
      simp only [CsrFile.read, if_neg notMstatus, ex.pc]
    split
    · rename_i mret
      exact read_mret _ (notMstatus (by simp [mret]))
    · exact commitCsr_read_other quiet

section Golden

variable {imem : Memory} {G : ℕ → Golden} (steps : ∀ k, G (k + 1) = (G k).posedge imem ())
include steps

private theorem golden_pc (k : ℕ) : (G (k + 1)).core.pc = (G k).core.nextPc ((G k).instr imem) := by
  rw [steps, Golden.posedge_core]

private theorem golden_csr (k : ℕ) :
    (G (k + 1)).core.csr = (G k).core.nextCsr ((G k).instr imem) := by
  rw [steps, Golden.posedge_core]

private theorem golden_regfile (k : ℕ) : (G (k + 1)).core.regfile =
    (G k).core.nextRegfile ((G k).instr imem) ((G k).ldData imem) := by
  rw [steps, Golden.posedge_core]

private theorem golden_dmem (k : ℕ) :
    (G (k + 1)).dmem = clockDmem (G k).dmem ((G k).core.dataPort ((G k).instr imem)) := by
  rw [steps]
  rfl

/-- An instruction that does not write `r` leaves its read port alone. -/
private theorem golden_port {r : Reg} (k : ℕ) (v : Bool)
    (quiet : r ≠ 0 → v = true →
      (ScCore.wrEn ((G k).instr imem) && rd ((G k).instr imem) == r) = false) :
    (G (k + v.toNat)).core.regfile.port r = (G k).core.regfile.port r := by
  cases v with
  | false => rfl
  | true =>
    change (G (k + 1)).core.regfile.port r = _
    by_cases zero : r = 0
    · simp [RegFile.port, zero]
    have other := quiet zero rfl
    rw [golden_regfile steps, ScCore.nextRegfile]
    split
    · rename_i writes
      have ne : r ≠ rd ((G k).instr imem) := by
        rintro rfl
        simp only [Bool.and_eq_true] at writes
        simp [writes.1] at other
      simp [RegFile.port, RegFile.set, ne]
    · rfl

/-- A stage moves the in-order CSR file on by what its golden instruction does. -/
private theorem golden_arch {T : CsrAddr → Prop} {s : Core} {k : ℕ} {b : CsrAddr}
    (accesses : Accesses imem T) (ex : InEx (G k).core ((G k).instr imem) s.idEx) (tracked : T b) :
    (archNext s (G k).core.csr).read b = (G (k + 1)).core.csr.read b := by
  rw [golden_csr steps]
  apply archNext_inEx ex
  · intro csr mip
    exact accesses.mip (mip ▸ accesses.csr _ csr)
  · rintro priv rfl
    have none := accesses.mstatus tracked (wordIndex (G k).core.pc)
    simp [Golden.instr, none] at priv

end Golden

def goldenInOrder (imem : Memory) (G : ℕ → Golden) (s : Core) (a : ℕ) : InOrder where
  arch := (G (posEx s a)).core.csr
  memRead := (G (posMem s a)).core.csrRdata ((G (posMem s a)).instr imem)
  wbRead := (G a).core.csrRdata ((G a).instr imem)

/-- The front end after the instructions up to ID: what sits in IF/ID is the next golden
instruction, and pc follows it. -/
structure Front (imem : Memory) (g : Golden) (s : Core) : Prop where
  instr : s.ifId.valid = true → s.ifId.instr = g.instr imem
  ifIdPc : s.ifId.valid = true → s.ifId.pc = g.core.pc
  pc : s.pc = if s.ifId.valid then g.core.pc + 4 else g.core.pc

/-- With `a` golden instructions retired, every stage holds the golden instruction of its
position, and each part of the state is the golden one as of the stage that owns it. While EX
redirects, the front end holds the wrong path and nothing is said about it. -/
structure InStep (imem : Memory) (T : CsrAddr → Prop) (G : ℕ → Golden) (s : Dut) (a : ℕ) :
    Prop where
  inert : Inert s.core
  privReady : PrivReady s.core
  ordered : Ordered T s.core (goldenInOrder imem G s.core a)
  regfile : s.core.regfile = (G a).core.regfile
  dmem : clockDmem s.dmem s.core.dataPort = (G (posEx s.core a)).dmem
  inWb : s.core.memWb.valid = true →
    InWb (G a).core ((G a).instr imem) ((G a).ldData imem) s.core.memWb
  inMem : s.core.exMem.valid = true →
    InMem (G (posMem s.core a)).core ((G (posMem s.core a)).instr imem) s.core.exMem
  inEx : s.core.idEx.valid = true →
    InEx (G (posEx s.core a)).core ((G (posEx s.core a)).instr imem) s.core.idEx
  front : s.core.idEx.flushBase = false → Front imem (G (posId s.core a)) s.core

section Step

variable {imem : Memory} {T : CsrAddr → Prop} {G : ℕ → Golden} {s : Dut} {a : ℕ} {c : Cycle}

/-- The hazard test that let ID go: no register it reads is still to be written. -/
private theorem operand_settled (steps : ∀ k, G (k + 1) = (G k).posedge imem ())
    (inv : InStep imem T G s a) {r : Reg} (free : r ≠ 0 → s.core.regInFlight r = false) :
    s.core.regfile.port r = (G (posId s.core a)).core.regfile.port r := by
  have quiet : r ≠ 0 →
      (s.core.idEx.valid && s.core.idEx.wrEn && s.core.idEx.rd == r) = false ∧
      (s.core.exMem.valid && s.core.exMem.wrEn && s.core.exMem.rd == r) = false ∧
      (s.core.memWb.valid && s.core.memWb.wrEn && s.core.memWb.rd == r) = false := by
    intro nonzero
    have := free nonzero
    simp only [Core.regInFlight, Bool.or_eq_false_iff] at this
    exact ⟨this.1.1, this.1.2, this.2⟩
  have wb : (G (posMem s.core a)).core.regfile.port r = (G a).core.regfile.port r := by
    apply golden_port steps
    intro nonzero valid
    have free := (quiet nonzero).2.2
    have m := inv.inWb valid
    rwa [valid, Bool.true_and, m.wrEn, m.rd] at free
  have mem : (G (posEx s.core a)).core.regfile.port r =
      (G (posMem s.core a)).core.regfile.port r := by
    apply golden_port steps
    intro nonzero valid
    have free := (quiet nonzero).2.1
    have m := inv.inMem valid
    rwa [valid, Bool.true_and, m.wrEn, m.rd] at free
  have ex : (G (posId s.core a)).core.regfile.port r =
      (G (posEx s.core a)).core.regfile.port r := by
    apply golden_port steps
    intro nonzero valid
    have free := (quiet nonzero).1
    have m := inv.inEx valid
    rwa [valid, Bool.true_and, m.wrEn, m.rd] at free
  rw [inv.regfile, ex, mem, wb]

/-- What ID hands over when nothing holds it back. -/
private theorem toIdEx_inEx (steps : ∀ k, G (k + 1) = (G k).posedge imem ())
    (inv : InStep imem T G s a) (valid : s.core.ifId.valid = true)
    (straight : s.core.exFlush false = false) (go : s.core.idStall false = false) :
    InEx (G (posId s.core a)).core ((G (posId s.core a)).instr imem) s.core.toIdEx := by
  have flush := flushBase_of_straight straight
  have front := inv.front flush
  simp only [Core.idStall, valid, straight, Bool.not_false, Bool.true_and, Bool.or_eq_false_iff]
    at go
  have port1 : rs1Valid s.core.ifId.instr = true → s.core.regfile.port (rs1 s.core.ifId.instr) =
      (G (posId s.core a)).core.regfile.port (rs1 s.core.ifId.instr) := by
    intro reads
    exact operand_settled steps inv (by simpa [reads] using go.1.2)
  have port2 : rs2Valid s.core.ifId.instr = true → s.core.regfile.port (rs2 s.core.ifId.instr) =
      (G (posId s.core a)).core.regfile.port (rs2 s.core.ifId.instr) := by
    intro reads
    exact operand_settled steps inv (by simpa [reads] using go.2)
  rw [← front.instr valid]
  refine ⟨valid, rfl, rfl, rfl, front.ifIdPc valid, rfl, port1, ?_, ?_⟩
  · intro reads
    have notCsr : isCsr s.core.ifId.instr = false := by
      rw [← Bool.not_eq_true]
      intro csr
      have noFormat := (of_isCsr csr).2.1
      simp [rs2Valid, noFormat] at reads
    simp only [Core.toIdEx, notCsr, Bool.false_eq_true, if_false]
    exact port2 reads
  · intro csr
    simp only [Core.toIdEx, csr, if_true, ScCore.opVal]
    split
    · rfl
    · rename_i register
      exact port1 (rs1Valid_of_csr csr (Bool.not_eq_true _ ▸ register))

/-- A CSR instruction in WB reads the golden value. -/
theorem InStep.wbRead (inv : InStep imem T G s a) (accesses : Accesses imem T)
    (valid : s.core.memWb.valid = true) (csr : isCsr ((G a).instr imem) = true) :
    csrRdata s.core.csr false (csrAddr ((G a).instr imem)) =
      (G a).core.csrRdata ((G a).instr imem) := by
  have tracked : T (csrAddr ((G a).instr imem)) := accesses.csr _ csr
  have m := inv.inWb valid
  have read := inv.ordered.wb valid (m.isCsr.trans csr) (m.csrAddr ▸ tracked)
  rw [csrRdata_read (fun mip => accesses.mip (mip ▸ tracked))]
  rw [m.csrAddr] at read
  exact read.symm

/-- What WB leaves in the register file is the golden register file one instruction on. -/
private theorem commitReg_golden (steps : ∀ k, G (k + 1) = (G k).posedge imem ())
    (inv : InStep imem T G s a) (accesses : Accesses imem T) :
    s.core.memWb.commitReg s.core.csr false s.core.regfile =
      (G (posMem s.core a)).core.regfile := by
  rw [posMem, MemWb.commitReg]
  cases valid : s.core.memWb.valid with
  | false =>
    rw [Bool.and_false, if_neg Bool.false_ne_true]
    exact inv.regfile
  | true =>
    have m := inv.inWb valid
    change _ = (G (a + 1)).core.regfile
    rw [golden_regfile steps, ScCore.nextRegfile, m.wrEn, m.rd, inv.regfile,
      m.wbData (inv.wbRead accesses valid), Bool.and_true]

/-- The store in MEM reaches the data memory once, however often its strobe is seen. -/
private theorem clockDmem_again (m : Memory) (p : DataPort) :
    clockDmem (clockDmem m p) p = clockDmem m p := by
  cases we : p.we <;> simp [clockDmem, we, writeMasked_again]

private theorem clockDmem_next (steps : ∀ k, G (k + 1) = (G k).posedge imem ())
    (inv : InStep imem T G s a) :
    clockDmem (G (posEx s.core a)).dmem s.core.idEx.toExMem.dataPort =
      (G (posId s.core a)).dmem := by
  rw [posId]
  cases valid : s.core.idEx.valid with
  | false =>
    simp [clockDmem, ExMem.dataPort, IdEx.toExMem, valid]
  | true =>
    change _ = (G (posEx s.core a + 1)).dmem
    have m : InMem (G (posEx s.core a)).core _ s.core.idEx.toExMem := ⟨_, inv.inEx valid, rfl⟩
    rw [golden_dmem steps]
    cases store : isSInstr ((G (posEx s.core a)).instr imem) with
    | true => rw [m.dataPort store]
    | false =>
      have we := m.we
      rw [store] at we
      simp [clockDmem, we, ScCore.dataPort, store]

/-- A load in MEM sees the golden data memory. -/
private theorem load_golden (steps : ∀ k, G (k + 1) = (G k).posedge imem ())
    (inv : InStep imem T G s a) (valid : s.core.exMem.valid = true)
    (ready : s.core.memWait (s.input imem c) = false)
    (load : isLoad ((G (posMem s.core a)).instr imem) = true) :
    (s.input imem c).ldData = (G (posMem s.core a)).ldData imem := by
  have m := inv.inMem valid
  have store := isSInstr_of_load load
  have vld : c.dmemVld = true := by
    simpa [Core.memWait, Core.dataPort, DataPort.req, m.re, load, Dut.input] using ready
  have now : s.dmem = (G (posMem s.core a)).dmem := by
    have dmem := inv.dmem
    rw [posEx, valid, Bool.toNat_true, golden_dmem steps] at dmem
    simpa [clockDmem, Core.dataPort, m.we, store, ScCore.dataPort] using dmem
  simp only [Dut.input, vld, if_true, Golden.ldData, now, Core.dataPort, m.addr]

/-- The in-order machine of the pipeline stays on the golden run. -/
private theorem ordered_golden (steps : ∀ k, G (k + 1) = (G k).posedge imem ())
    (inv : InStep imem T G s a) (accesses : Accesses imem T) (run : c.halt = false)
    (ready : s.core.memWait (s.input imem c) = false)
    (calm : trapRace s.core (s.input imem c) = false) (t : Core)
    (next : s.core.posedge (s.input imem c) = t) (memWb : t.memWb.valid = s.core.exMem.valid)
    (exMem : t.exMem = s.core.idEx.toExMem) :
    Ordered T t (goldenInOrder imem G t (posMem s.core a)) := by
  have status : T aMstatus → s.core.idEx.isPriv = false := by
    intro tracked
    cases valid : s.core.idEx.valid with
    | false => exact (inv.inert.bubble valid).2.1
    | true =>
      have none := accesses.mstatus tracked (wordIndex (G (posEx s.core a)).core.pc)
      simp [IdEx.isPriv, (inv.inEx valid).ctrl, Core.idCtrlBus, Golden.instr, none]
  have ordered := ordered_posedge inv.inert inv.ordered (i := s.input imem c) rfl rfl accesses.mip
    status calm
  have stepped : (goldenInOrder imem G s.core a).next s.core (s.input imem c) =
      ⟨archNext s.core (G (posEx s.core a)).core.csr,
        csrRdata (G (posEx s.core a)).core.csr false s.core.idEx.csrAddr,
        (G (posMem s.core a)).core.csrRdata ((G (posMem s.core a)).instr imem)⟩ := by
    rw [InOrder.next, ready, show (s.input imem c).halt = false from run]
    rfl
  rw [next, stepped] at ordered
  have atMem : posMem t (posMem s.core a) = posEx s.core a := by rw [posMem, memWb, posEx]
  have atEx : posEx t (posMem s.core a) = posId s.core a := by
    rw [posEx, atMem, exMem, posId]
    rfl
  refine ⟨?_, ?_, ordered.wb⟩
  · intro b tracked
    rw [ordered.arch b tracked, goldenInOrder, atEx, posId]
    cases valid : s.core.idEx.valid with
    | false =>
      have quiet := inv.inert.bubble valid
      have priv := quiet.2.1
      simp only [IdEx.isPriv, Bool.or_eq_false_iff] at priv
      simp only [archNext, priv, Bool.or_self, Bool.false_eq_true, if_false]
      apply commitCsr_read_other
      simp [MemWb.writesCsr, ExMem.toMemWb, IdEx.toExMem, valid]
    | true => exact golden_arch steps accesses (inv.inEx valid) tracked
  · intro valid csr tracked
    rw [← ordered.mem valid csr tracked, goldenInOrder, atMem]
    rw [exMem] at valid csr tracked
    have ex := inv.inEx valid
    rw [ScCore.csrRdata, ← ex.csrAddr]
    exact (csrRdata_read (fun mip => accesses.mip (mip ▸ tracked)) false).symm

/-- The back end moves on by one stage; EX and the front end are given. -/
private theorem inStep_moved (steps : ∀ k, G (k + 1) = (G k).posedge imem ())
    (inv : InStep imem T G s a) (accesses : Accesses imem T) (run : c.halt = false)
    (ready : s.core.memWait (s.input imem c) = false)
    (calm : trapRace s.core (s.input imem c) = false) (t : Core)
    (next : s.core.posedge (s.input imem c) = t)
    (memWb : t.memWb = s.core.exMem.toMemWb (s.input imem c).ldData)
    (exMem : t.exMem = s.core.idEx.toExMem)
    (regfile : t.regfile = s.core.memWb.commitReg s.core.csr false s.core.regfile)
    (idEx : t.idEx.valid = true →
      InEx (G (posId s.core a)).core ((G (posId s.core a)).instr imem) t.idEx)
    (front : t.idEx.flushBase = false →
      Front imem (G (posId s.core a + t.idEx.valid.toNat)) t) :
    InStep imem T G ⟨t, clockDmem s.dmem s.core.dataPort⟩ (posMem s.core a) := by
  have wbValid : t.memWb.valid = s.core.exMem.valid := by rw [memWb]; rfl
  have atMem : posMem t (posMem s.core a) = posEx s.core a := by rw [posMem, wbValid, posEx]
  have atEx : posEx t (posMem s.core a) = posId s.core a := by
    rw [posEx, atMem, exMem, posId]
    rfl
  refine
    { inert := next ▸ inert_posedge inv.inert rfl
      privReady := next ▸ privReady_posedge inv.inert inv.privReady rfl
      ordered := ordered_golden steps inv accesses run ready calm t next wbValid exMem
      regfile := regfile.trans (commitReg_golden steps inv accesses)
      dmem := ?_, inWb := ?_, inMem := ?_, inEx := ?_, front := ?_ }
  · change clockDmem (clockDmem s.dmem s.core.dataPort) t.exMem.dataPort = _
    rw [atEx, inv.dmem, exMem]
    exact clockDmem_next steps inv
  · intro valid
    change t.memWb.valid = true at valid
    rw [wbValid] at valid
    exact ⟨_, _, inv.inMem valid, load_golden steps inv valid ready, memWb⟩
  · intro valid
    change t.exMem.valid = true at valid
    rw [exMem] at valid
    rw [atMem]
    exact ⟨_, inv.inEx valid, exMem⟩
  · intro valid
    rw [atEx]
    exact idEx valid
  · intro straight
    rw [posId, atEx]
    exact front straight

/-- The redirect out of EX leads to the next golden instruction. -/
private theorem redirect_golden (steps : ∀ k, G (k + 1) = (G k).posedge imem ())
    (inv : InStep imem T G s a) (accesses : Accesses imem T)
    (flush : s.core.idEx.flushBase = true) :
    s.core.nextPc false = (G (posId s.core a)).core.pc := by
  have valid := inv.inert.valid_of_flushBase flush
  have ex := inv.inEx valid
  rw [posId, valid, Bool.toNat_true, golden_pc steps]
  apply ex.nextPc (irqTaken_false _) flush
  · intro trap
    have quiet := inv.privReady.trap (by rwa [ex.ctrl])
    have settled := inv.ordered.arch aMtvec accesses.mtvec
    rwa [settled_read false quiet] at settled
  · intro mret
    have quiet := inv.privReady.mret (by rwa [ex.ctrl])
    have settled := inv.ordered.arch aMepc accesses.mepc
    rwa [settled_read false quiet] at settled

theorem inStep_posedge (steps : ∀ k, G (k + 1) = (G k).posedge imem ())
    (inv : InStep imem T G s a) (accesses : Accesses imem T)
    (calm : trapRace s.core (s.input imem c) = false) :
    InStep imem T G (s.posedge imem c) (retired s.core (s.input imem c) a) := by
  obtain ⟨t, eq⟩ : ∃ t, s.core.posedge (s.input imem c) = t := ⟨_, rfl⟩
  have edge := posedge_edge s.core (s.input imem c) rfl
  rw [Dut.posedge, eq]
  rw [eq] at edge
  cases edge with
  | halted halt =>
    rw [retired, halt, if_pos rfl]
    refine { inv with dmem := ?_ }
    exact (clockDmem_again _ _).trans inv.dmem
  | waiting run wait =>
    rw [retired, run, if_neg Bool.false_ne_true]
    refine
      { inv with
        inert := eq ▸ inert_posedge inv.inert rfl
        privReady := eq ▸ privReady_posedge inv.inert inv.privReady rfl
        ordered := ⟨inv.ordered.arch, inv.ordered.mem, fun invalid => by simp at invalid⟩
        regfile := commitReg_golden steps inv accesses
        dmem := (clockDmem_again _ _).trans inv.dmem
        inWb := fun invalid => by simp at invalid
        front := fun base =>
          ⟨(inv.front base).instr, (inv.front base).ifIdPc, (inv.front base).pc⟩ }
  | flushed run ready flush =>
    rw [retired, run, if_neg Bool.false_ne_true]
    have base : s.core.idEx.flushBase = true := by
      simpa [Core.exFlush, Dut.input] using flush
    apply inStep_moved steps inv accesses run ready calm _ eq rfl rfl rfl
    · intro invalid
      simp at invalid
    · intro _
      refine ⟨fun invalid => by simp at invalid, fun invalid => by simp at invalid, ?_⟩
      exact redirect_golden steps inv accesses base
  | stalled run ready straight stall =>
    rw [retired, run, if_neg Bool.false_ne_true]
    have base : s.core.idEx.flushBase = false := by
      simpa [Core.exFlush, Dut.input] using straight
    apply inStep_moved steps inv accesses run ready calm _ eq rfl rfl rfl
    · intro invalid
      simp at invalid
    · intro _
      have front := inv.front base
      exact ⟨front.instr, front.ifIdPc, front.pc⟩
  | advanced run ready straight go =>
    rw [retired, run, if_neg Bool.false_ne_true]
    have base : s.core.idEx.flushBase = false := by
      simpa [Core.exFlush, Dut.input] using straight
    have front := inv.front base
    rw [Core.frontStall, Bool.or_eq_false_iff] at go
    have vld : c.imemVld = true := by
      simpa [Core.ifWait, Dut.input, show c.halt = false from run] using go.2
    have fetched : (s.input imem c).imemRdata = imem (wordIndex s.core.pc) := by
      simp [Dut.input, vld]
    have ex : s.core.ifId.valid = true →
        InEx (G (posId s.core a)).core ((G (posId s.core a)).instr imem) s.core.toIdEx := by
      intro valid
      exact toIdEx_inEx steps inv valid straight go.1
    refine inStep_moved steps inv accesses run ready calm _ eq rfl rfl rfl ex ?_
    intro through
    -- whether or not ID held an instruction, pc is where the next golden one sits
    have pc : s.core.pc = (G (posId s.core a + s.core.ifId.valid.toNat)).core.pc := by
      rw [front.pc]
      cases valid : s.core.ifId.valid with
      | false => rfl
      | true =>
        rw [Bool.toNat_true, golden_pc steps]
        exact ((ex valid).fallThrough through).symm
    exact ⟨fun _ => by rw [fetched, pc]; rfl, fun _ => pc, by rw [pc]; rfl⟩

end Step

end RiscvSoc.Testbench.Lockstep
