/- GID: RiscvSoc/Cpu/PcParity
   generality: G
   utility: main
   digest: Bit 0 of pc on both cores: where it stays clear, and the targets that set it. -/

import RiscvSoc.Cpu.Fetched
import RiscvSoc.Cpu.SingleCycle

set_option autoImplicit false
set_option relaxedAutoImplicit false

namespace RiscvSoc.Cpu.PcParity

open RiscvSoc.Clocked.Trajectory
open RiscvSoc.Cpu.Decoder
open RiscvSoc.Cpu.DecoderFacts
open RiscvSoc.Cpu.Datapath
open RiscvSoc.Cpu.Pipeline
open RiscvSoc.Cpu.PipelineEdge
open RiscvSoc.Cpu.Fetched
open RiscvSoc.Cpu.SingleCycle

/-- An address of a halfword. -/
def HalfwordAligned (a : Word) : Prop := a.getLsbD 0 = false

instance (a : Word) : Decidable (HalfwordAligned a) :=
  inferInstanceAs (Decidable (a.getLsbD 0 = false))

section Addresses

variable {a b instr : Word}

private theorem aligned_zero : HalfwordAligned 0 := by decide

private theorem getLsbD_zero_add (a b : Word) :
    (a + b).getLsbD 0 = (a.getLsbD 0 ^^ b.getLsbD 0) := by
  rw [BitVec.getLsbD_add (by decide), BitVec.carry_zero, Bool.xor_false]

private theorem aligned_add_iff : HalfwordAligned (a + b) ↔ a.getLsbD 0 = b.getLsbD 0 := by
  rw [HalfwordAligned, getLsbD_zero_add]
  cases a.getLsbD 0 <;> cases b.getLsbD 0 <;> decide

private theorem HalfwordAligned.add (left : HalfwordAligned a) (right : HalfwordAligned b) :
    HalfwordAligned (a + b) :=
  aligned_add_iff.mpr (left.trans right.symm)

private theorem HalfwordAligned.add_four (aligned : HalfwordAligned a) : HalfwordAligned (a + 4) :=
  aligned.add rfl

private theorem rows_jal : ∀ r ∈ decBitsRows, r.flags.op.isJal = true →
    r.flags.op = { isJal := true } ∧
      (decoderLogic (r.opcode.extractLsb' 2 5)) = { isJ := true } := by
  decide

private theorem rows_jalr : ∀ r ∈ decBitsRows, r.flags.op.isJalr = true →
    r.flags.op = { isJalr := true } := by
  decide

private theorem rows_auipc : ∀ r ∈ decBitsRows, r.flags.op.isAuipc = true →
    r.flags.op = { isAuipc := true } ∧
      (decoderLogic (r.opcode.extractLsb' 2 5)) = { isU := true } := by
  decide

def isBranch (op : OpFlags) : Bool :=
  op.isBeq || op.isBne || op.isBlt || op.isBge || op.isBltu || op.isBgeu

private theorem rows_branch : ∀ r ∈ decBitsRows, isBranch r.flags.op = true →
    (decoderLogic (r.opcode.extractLsb' 2 5)) = { isB := true } := by
  decide

private theorem of_jal (jal : (opFlags instr).isJal = true) :
    opFlags instr = { isJal := true } ∧ format instr = { isJ := true } :=
  of_row OpFlags.isJal (fun op f => op = { isJal := true } ∧ f = { isJ := true }) rows_jal rfl jal

private theorem of_jalr (jalr : (opFlags instr).isJalr = true) :
    opFlags instr = { isJalr := true } :=
  of_row OpFlags.isJalr (fun op _ => op = { isJalr := true }) rows_jalr rfl jalr

private theorem of_auipc (auipc : (opFlags instr).isAuipc = true) :
    opFlags instr = { isAuipc := true } ∧ format instr = { isU := true } :=
  of_row OpFlags.isAuipc (fun op f => op = { isAuipc := true } ∧ f = { isU := true }) rows_auipc
    rfl auipc

private theorem format_of_branch (branch : isBranch (opFlags instr) = true) :
    format instr = { isB := true } :=
  of_row isBranch (fun _ f => f = { isB := true }) rows_branch rfl branch

private theorem isBranch_of_takenBr {op : OpFlags} (taken : takenBr op a b = true) :
    isBranch op = true := by
  rw [← Bool.not_eq_false]
  intro none
  simp only [isBranch, Bool.or_eq_false_iff] at none
  simp [takenBr, none] at taken

private theorem getLsbD_zero_signExtend {n : ℕ} (x : BitVec n) :
    ((x ++ 0#1).signExtend 32).getLsbD 0 = false := by
  simp [BitVec.getLsbD_eq_getElem, BitVec.getElem_signExtend, BitVec.getElem_append]

private theorem imm_jump (jump : (takenBr (opFlags instr) a b || (opFlags instr).isJal) = true) :
    HalfwordAligned (imm instr) := by
  rcases Bool.or_eq_true _ _ ▸ jump with taken | jal
  · simp only [HalfwordAligned, imm, format_of_branch (isBranch_of_takenBr taken)]
    exact getLsbD_zero_signExtend _
  · simp only [HalfwordAligned, imm, (of_jal jal).2]
    exact getLsbD_zero_signExtend _

private theorem imm_upper (upper : format instr = { isU := true }) :
    HalfwordAligned (imm instr) := by
  simp only [HalfwordAligned, imm, upper]
  exact BitVec.getLsbD_append

variable {load store : Bool} {src1 src2 pc : Word}

private theorem result_jump (jump : ((opFlags instr).isJal || (opFlags instr).isJalr) = true) :
    aluResult (opFlags instr) load store src1 src2 (imm instr) pc = pc + 4 := by
  rcases Bool.or_eq_true _ _ ▸ jump with jal | jalr
  · rw [(of_jal jal).1]
    rfl
  · rw [of_jalr jalr]
    rfl

private theorem result_auipc (auipc : (opFlags instr).isAuipc = true) :
    aluResult (opFlags instr) load store src1 src2 (imm instr) pc = pc + imm instr := by
  rw [(of_auipc auipc).1]
  rfl

end Addresses

section SingleCycleCore

/-- pc and mepc of the single-cycle core, and all that the instruction makes of pc: link, AUIPC
result and branch target. -/
structure ScAligned (s : ScCore) (instr : Word) : Prop where
  pc : HalfwordAligned s.pc
  mepc : HalfwordAligned s.csr.mepc
  link : ((opFlags instr).isJal || (opFlags instr).isJalr) = true →
    HalfwordAligned (s.result instr)
  auipc : (opFlags instr).isAuipc = true → HalfwordAligned (s.result instr)
  target : (s.takenBr instr || (opFlags instr).isJal) = true → HalfwordAligned (s.pc + imm instr)

/-- The instruction takes no odd target from a register or mtvec: a JALR finds rs1 and the
immediate equal in bit 0, a trap finds that of mtvec clear. -/
structure ScEvenTargets (s : ScCore) (instr : Word) : Prop where
  jalr : (opFlags instr).isJalr = true →
    (s.src1Value instr).getLsbD 0 = (imm instr).getLsbD 0
  trap : (isEcall instr || isEbreak instr) = true → HalfwordAligned s.csr.mtvec

/-- A CSR instruction that writes mepc writes an even value. -/
def ScEvenMepc (s : ScCore) (instr : Word) : Prop :=
  isCsr instr = true → csrAddr instr = aMepc → HalfwordAligned (s.csrWdata instr)

variable {s : ScCore} {instr : Word}

private theorem scAligned_of_pc (pc : HalfwordAligned s.pc) (mepc : HalfwordAligned s.csr.mepc) :
    ScAligned s instr where
  pc := pc
  mepc := mepc
  link := fun jump => by
    rw [ScCore.result, result_jump jump]
    exact pc.add_four
  auipc := fun auipc => by
    rw [ScCore.result, result_auipc auipc]
    exact pc.add (imm_upper (of_auipc auipc).2)
  target := fun jump => pc.add (imm_jump jump)

private theorem nextPc_jalr (jalr : (opFlags instr).isJalr = true) :
    s.nextPc instr = s.src1Value instr + imm instr := by
  simp [ScCore.nextPc, ScCore.takenBr, of_jalr jalr, takenBr]

private theorem nextPc_trap (trap : (isEcall instr || isEbreak instr) = true) :
    s.nextPc instr = s.csr.mtvec := by
  have silent : opFlags instr = {} := by
    rw [opFlags, decFlags_of_priv (by rw [← or_assoc, ← Bool.or_eq_true]; exact .inl trap)]
  simp [ScCore.nextPc, ScCore.takenBr, silent, takenBr, trap]

private theorem scNextPc_iff (pc : HalfwordAligned s.pc) (mepc : HalfwordAligned s.csr.mepc) :
    HalfwordAligned (s.nextPc instr) ↔ ScEvenTargets s instr := by
  constructor
  · intro next
    refine ⟨fun jalr => ?_, fun trap => ?_⟩
    · rw [nextPc_jalr jalr] at next
      exact aligned_add_iff.mp next
    · rwa [nextPc_trap trap] at next
  · rintro ⟨jalr, trap⟩
    rw [ScCore.nextPc]
    split_ifs with jump isJalr isTrap isMret
    · exact pc.add (imm_jump jump)
    · exact aligned_add_iff.mpr (jalr isJalr)
    · exact trap isTrap
    · exact mepc
    · exact pc.add_four

private theorem write_mepc (c : CsrFile) (a : CsrAddr) (v : Word) :
    (c.write a v).mepc = if a = aMepc then v else c.mepc := by
  by_cases this : a = aMepc
  · rw [if_pos this, this]
    rfl
  · rw [if_neg this, CsrFile.write]
    split_ifs <;> rfl

private theorem scNextCsr_mepc_iff (pc : HalfwordAligned s.pc) (mepc : HalfwordAligned s.csr.mepc) :
    HalfwordAligned (s.nextCsr instr).mepc ↔ ScEvenMepc s instr := by
  rw [ScCore.nextCsr]
  by_cases csr : isCsr instr = true
  · rw [if_pos csr, write_mepc]
    split_ifs with this
    · exact ⟨fun even _ _ => even, fun even => even csr this⟩
    · exact ⟨fun _ _ eq => absurd eq this, fun _ => mepc⟩
  · rw [if_neg csr]
    refine iff_of_true ?_ fun on => absurd on csr
    by_cases trap : (isEcall instr || isEbreak instr) = true
    · rw [if_pos trap]
      exact pc
    · rw [if_neg trap]
      exact mepc

/-- The edges that execute an instruction. -/
def scExecutes (s : ScCore) (i : CoreIn) : Bool := !i.rst && !i.halt && !s.stall i

private theorem scPc_posedge (s : ScCore) (i : CoreIn) :
    (s.posedge i).pc =
      if i.rst then 0 else if scExecutes s i then s.nextPc i.imemRdata else s.pc := by
  by_cases rst : i.rst = true <;> simp [ScCore.posedge, ScCore.live, scExecutes, rst]

/-- The edges that write CSRs. The CSR file has no reset. -/
def scWrites (s : ScCore) (i : CoreIn) : Bool := !i.halt && !(s.live i.rst).stall i

private theorem scPc_iff {i : CoreIn} (pc : HalfwordAligned s.pc)
    (mepc : HalfwordAligned s.csr.mepc) :
    HalfwordAligned (s.posedge i).pc ↔
      (scExecutes s i = true → ScEvenTargets s i.imemRdata) := by
  rw [scPc_posedge]
  split_ifs with rst go
  · have still : scExecutes s i = false := by simp [scExecutes, rst]
    exact ⟨fun _ go => absurd (still.symm.trans go) Bool.false_ne_true, fun _ => rfl⟩
  · rw [scNextPc_iff pc mepc]
    exact ⟨fun targets _ => targets, fun targets => targets go⟩
  · exact ⟨fun _ on => absurd on go, fun _ => pc⟩

private theorem scMepc_iff {i : CoreIn} (pc : HalfwordAligned s.pc)
    (mepc : HalfwordAligned s.csr.mepc) :
    HalfwordAligned (s.posedge i).csr.mepc ↔
      (scWrites s i = true → ScEvenMepc (s.live i.rst) i.imemRdata) := by
  have live : HalfwordAligned (s.live i.rst).pc := by
    rw [ScCore.live]
    split_ifs
    · exact aligned_zero
    · exact pc
  have kept : (s.live i.rst).csr = s.csr := by
    rw [ScCore.live]
    split_ifs <;> rfl
  have next : (s.posedge i).csr =
      if scWrites s i then (s.live i.rst).nextCsr i.imemRdata else s.csr := by
    rw [← kept]
    rfl
  rw [next]
  split_ifs with go
  · rw [scNextCsr_mepc_iff live (kept ▸ mepc)]
    exact ⟨fun even _ => even, fun even => even go⟩
  · exact ⟨fun _ on => absurd on go, fun _ => mepc⟩

end SingleCycleCore

section PipelinedCore

/-- The same on the pipelined core, for the instruction in EX. A trap or an interrupt stores the
pc of EX in mepc. -/
structure Aligned (s : Core) : Prop where
  pc : HalfwordAligned s.pc
  mepc : HalfwordAligned s.csr.mepc
  epc : HalfwordAligned s.idEx.pc
  link : (s.idEx.ctrl.op.isJal || s.idEx.ctrl.op.isJalr) = true → HalfwordAligned s.idEx.result
  auipc : s.idEx.ctrl.op.isAuipc = true → HalfwordAligned s.idEx.result
  target : (s.idEx.takenBr || s.idEx.ctrl.op.isJal) = true → HalfwordAligned s.idEx.brTgtPc

/-- EX takes no odd target from a register or mtvec. An accepted interrupt overrides a JALR. -/
structure EvenTargets (s : Core) (irq : Bool) : Prop where
  interrupt : s.irqTaken irq = true → HalfwordAligned s.csr.mtvec
  jalr : s.idEx.ctrl.op.isJalr = true → s.irqTaken irq = false →
    s.idEx.src1Value.getLsbD 0 = s.idEx.imm.getLsbD 0
  trap : (s.idEx.ctrl.isEcall || s.idEx.ctrl.isEbreak) = true → HalfwordAligned s.csr.mtvec

/-- A CSR instruction that commits to mepc commits an even value, unless a trap overrides it. -/
def EvenMepc (s : Core) (i : CoreIn) : Prop :=
  s.memWb.writesCsr aMepc = true → i.halt = false → s.trapEntry i = false →
    HalfwordAligned (s.memWb.csrNewVal s.csr i.timerIrq)

/-- What the pipeline keeps as long as pc is aligned: every pc it carries is, and the immediate
in EX belongs to the flags beside it. -/
structure Carried (s : Core) : Prop where
  inert : Inert s
  ifId : HalfwordAligned s.ifId.pc
  idEx : HalfwordAligned s.idEx.pc
  decoded : s.idEx.ctrl = {} ∨
    ∃ instr, s.idEx.ctrl = Core.idCtrlBus instr ∧ s.idEx.imm = imm instr

variable {s : Core} {i : CoreIn} {irq : Bool}

private theorem carried_reset (csr : CsrFile) (regfile : RegFile) :
    Carried (Core.reset csr regfile) :=
  ⟨inert_reset csr regfile, aligned_zero, aligned_zero, .inl rfl⟩

private theorem carried_posedge (carried : Carried s) (pc : HalfwordAligned s.pc) :
    Carried (s.posedge i) := by
  refine ⟨inert_next carried.inert i, ?_, ?_, ?_⟩
  · simp only [Core.posedge]
    split_ifs <;> first | rfl | exact carried.ifId | exact pc
  · simp only [Core.posedge]
    split_ifs <;> first | rfl | exact carried.idEx | exact carried.ifId
  · simp only [Core.posedge]
    split_ifs <;> first | exact .inl rfl | exact carried.decoded | exact .inr ⟨_, rfl, rfl⟩

private theorem Carried.target (carried : Carried s)
    (jump : (s.idEx.takenBr || s.idEx.ctrl.op.isJal) = true) : HalfwordAligned s.idEx.brTgtPc := by
  rcases carried.decoded with bubble | ⟨instr, decoded, offset⟩
  · rw [IdEx.takenBr, bubble] at jump
    exact absurd jump Bool.false_ne_true
  · rw [IdEx.takenBr, decoded] at jump
    rw [IdEx.brTgtPc, offset]
    exact carried.idEx.add (imm_jump jump)

private theorem Carried.aligned (carried : Carried s) (pc : HalfwordAligned s.pc)
    (mepc : HalfwordAligned s.csr.mepc) : Aligned s := by
  refine ⟨pc, mepc, carried.idEx, fun jump => ?_, fun auipc => ?_, carried.target⟩
  · rcases carried.decoded with bubble | ⟨instr, decoded, offset⟩
    · rw [bubble] at jump
      exact absurd jump Bool.false_ne_true
    · rw [decoded] at jump
      rw [IdEx.result, decoded, offset]
      exact (result_jump jump).symm ▸ carried.idEx.add_four
  · rcases carried.decoded with bubble | ⟨instr, decoded, offset⟩
    · rw [bubble] at auipc
      exact absurd auipc Bool.false_ne_true
    · rw [decoded] at auipc
      rw [IdEx.result, decoded, offset]
      exact (result_auipc auipc).symm ▸ carried.idEx.add (imm_upper (of_auipc auipc).2)

private theorem Carried.nextPc_jalr (carried : Carried s) (jalr : s.idEx.ctrl.op.isJalr = true)
    (noIrq : s.irqTaken irq = false) : s.nextPc irq = s.idEx.jalrTgtPc := by
  rcases carried.decoded with bubble | ⟨instr, decoded, -⟩
  · rw [bubble] at jalr
    exact absurd jalr Bool.false_ne_true
  · rw [decoded] at jalr
    have flags : s.idEx.ctrl.op = { isJalr := true } := by rw [decoded, ← of_jalr jalr]; rfl
    simp [Core.nextPc, noIrq, IdEx.takenBr, flags, takenBr]

private theorem nextPc_iff (carried : Carried s) (pc : HalfwordAligned s.pc)
    (mepc : HalfwordAligned s.csr.mepc) :
    HalfwordAligned (s.nextPc irq) ↔ EvenTargets s irq := by
  constructor
  · intro next
    refine ⟨fun taken => ?_, fun jalr noIrq => ?_, fun trap => ?_⟩
    · simpa [Core.nextPc, taken] using next
    · rw [carried.nextPc_jalr jalr noIrq] at next
      exact aligned_add_iff.mp next
    · rwa [carried.inert.nextPc_trap irq trap] at next
  · rintro ⟨taken, jalr, trap⟩
    rw [Core.nextPc]
    split_ifs with isIrq jump isJalr isTrap isMret
    · exact taken isIrq
    · exact carried.target jump
    · exact aligned_add_iff.mpr (jalr isJalr (Bool.eq_false_iff.mpr isIrq))
    · exact trap isTrap
    · exact mepc
    · exact pc.add_four

/-- The edges on which EX resolves what it holds. -/
def resolves (s : Core) (i : CoreIn) : Bool := !i.rst && !i.halt && !s.memWait i

private theorem evenTargets_of_straight (straight : s.exFlush irq = false) : EvenTargets s irq := by
  obtain ⟨noIrq, ecall, ebreak, -, -, -, jalr⟩ := of_straight straight
  refine ⟨?_, ?_, ?_⟩ <;> simp [noIrq, ecall, ebreak, jalr]

private theorem pc_iff (carried : Carried s) (pc : HalfwordAligned s.pc)
    (mepc : HalfwordAligned s.csr.mepc) :
    HalfwordAligned (s.posedge i).pc ↔ (resolves s i = true → EvenTargets s i.timerIrq) := by
  simp only [Core.posedge, resolves]
  split_ifs with rst halt wait flush stall
  · simp [rst, HalfwordAligned]
  · simp [halt, pc]
  · simp [wait, pc]
  · rw [nextPc_iff carried pc mepc]
    simp [rst, halt, wait]
  · exact ⟨fun _ _ => evenTargets_of_straight (Bool.eq_false_iff.mpr flush), fun _ => pc⟩
  · rw [nextPc_iff carried pc mepc]
    simp [rst, halt, wait]

private theorem commitCsr_mepc (x : MemWb) (c : CsrFile) :
    (x.commitCsr c irq).mepc = if x.writesCsr aMepc then x.csrNewVal c irq else c.mepc := by
  rw [MemWb.commitCsr]
  by_cases commits : (x.isCsr && x.valid) = true
  · rw [if_pos commits, write_mepc]
    rw [Bool.and_eq_true] at commits
    simp [MemWb.writesCsr, commits]
  · rw [if_neg commits, if_neg]
    simp only [Bool.not_eq_true, Bool.and_eq_false_iff] at commits
    rcases commits with noCsr | invalid <;> simp [MemWb.writesCsr, *]

private theorem mepc_iff (carried : Carried s) (mepc : HalfwordAligned s.csr.mepc) :
    HalfwordAligned (s.posedge i).csr.mepc ↔ EvenMepc s i := by
  have next : (s.posedge i).csr.mepc =
      if s.trapEntry i then s.idEx.pc
      else if i.halt then s.csr.mepc
      else (s.memWb.commitCsr s.csr i.timerIrq).mepc := by
    simp only [Core.posedge, Core.nextCsr]
    split_ifs <;> rfl
  rw [next, EvenMepc]
  split_ifs with trap halt
  · exact ⟨fun _ _ _ off => absurd (trap.symm.trans off) Bool.false_ne_true.symm,
      fun _ => carried.idEx⟩
  · exact ⟨fun _ _ off => absurd (halt.symm.trans off) Bool.false_ne_true.symm, fun _ => mepc⟩
  · rw [commitCsr_mepc]
    split_ifs with writes
    · exact ⟨fun even _ _ _ => even, fun even =>
        even writes (Bool.eq_false_iff.mpr halt) (Bool.eq_false_iff.mpr trap)⟩
    · exact ⟨fun _ on => absurd on writes, fun _ => mepc⟩

end PipelinedCore

section Runs

variable (csr : CsrFile) (regfile : RegFile) (input : ℕ → CoreIn)

/-- The single-cycle core `n` clocks after reset. -/
abbrev scAfter : ℕ → ScCore := trajectory ScCore.posedge ⟨0, regfile, csr⟩ input

private theorem pipelined_aligned_iff :
    (∀ n, Aligned (after csr regfile input n)) ↔
      HalfwordAligned csr.mepc ∧ ∀ n,
        (resolves (after csr regfile input n) (input n) = true →
          EvenTargets (after csr regfile input n) (input n).timerIrq) ∧
        EvenMepc (after csr regfile input n) (input n) := by
  constructor
  · intro aligned
    have carried : ∀ n, Carried (after csr regfile input n) := by
      intro n
      induction n with
      | zero => exact carried_reset csr regfile
      | succ n ih => exact carried_posedge ih (aligned n).pc
    refine ⟨(aligned 0).mepc, fun n => ⟨?_, ?_⟩⟩
    · exact (pc_iff (carried n) (aligned n).pc (aligned n).mepc).mp (aligned (n + 1)).pc
    · exact (mepc_iff (carried n) (aligned n).mepc).mp (aligned (n + 1)).mepc
  · rintro ⟨start, even⟩ n
    suffices all : Carried (after csr regfile input n) ∧
        HalfwordAligned (after csr regfile input n).pc ∧
        HalfwordAligned (after csr regfile input n).csr.mepc from all.1.aligned all.2.1 all.2.2
    induction n with
    | zero => exact ⟨carried_reset csr regfile, aligned_zero, start⟩
    | succ n ih =>
      obtain ⟨carried, pc, mepc⟩ := ih
      refine ⟨carried_posedge carried pc, ?_, ?_⟩
      · exact (pc_iff carried pc mepc).mpr (even n).1
      · exact (mepc_iff carried mepc).mpr (even n).2

private theorem singleCycle_aligned_iff :
    (∀ n, ScAligned (scAfter csr regfile input n) (input n).imemRdata) ↔
      HalfwordAligned csr.mepc ∧ ∀ n,
        (scExecutes (scAfter csr regfile input n) (input n) = true →
          ScEvenTargets (scAfter csr regfile input n) (input n).imemRdata) ∧
        (scWrites (scAfter csr regfile input n) (input n) = true →
          ScEvenMepc ((scAfter csr regfile input n).live (input n).rst) (input n).imemRdata) := by
  constructor
  · intro aligned
    refine ⟨(aligned 0).mepc, fun n => ⟨?_, ?_⟩⟩
    · exact (scPc_iff (aligned n).pc (aligned n).mepc).mp (aligned (n + 1)).pc
    · exact (scMepc_iff (aligned n).pc (aligned n).mepc).mp (aligned (n + 1)).mepc
  · rintro ⟨start, even⟩ n
    suffices both : HalfwordAligned (scAfter csr regfile input n).pc ∧
        HalfwordAligned (scAfter csr regfile input n).csr.mepc from scAligned_of_pc both.1 both.2
    induction n with
    | zero => exact ⟨aligned_zero, start⟩
    | succ n ih =>
      obtain ⟨pc, mepc⟩ := ih
      exact ⟨(scPc_iff pc mepc).mpr (even n).1, (scMepc_iff pc mepc).mpr (even n).2⟩

/-- Bit 0 of pc and mepc, and of the links, AUIPC results, branch targets and trap addresses made
of pc, stays clear in a run of either core exactly when it is clear in mepc at the start and the
run takes no odd target from a register or mtvec and writes no odd value to mepc: nothing is
masked. -/
theorem pc_aligned_iff :
    ((∀ n, Aligned (after csr regfile input n)) ↔
      HalfwordAligned csr.mepc ∧ ∀ n,
        (resolves (after csr regfile input n) (input n) = true →
          EvenTargets (after csr regfile input n) (input n).timerIrq) ∧
        EvenMepc (after csr regfile input n) (input n)) ∧
    ((∀ n, ScAligned (scAfter csr regfile input n) (input n).imemRdata) ↔
      HalfwordAligned csr.mepc ∧ ∀ n,
        (scExecutes (scAfter csr regfile input n) (input n) = true →
          ScEvenTargets (scAfter csr regfile input n) (input n).imemRdata) ∧
        (scWrites (scAfter csr regfile input n) (input n) = true →
          ScEvenMepc ((scAfter csr regfile input n).live (input n).rst) (input n).imemRdata)) :=
  ⟨pipelined_aligned_iff csr regfile input, singleCycle_aligned_iff csr regfile input⟩

end Runs

def blankCsr : CsrFile := ⟨0, 0, 0, 0, 0, 0, 0, 0⟩

/-- `jalr x5, 7(x0)` at every address. -/
def oddJump : CoreIn where
  imemRdata := 0x007002e7
  imemVld := true
  ldData := 0
  dmemVld := true

/-- The jump to 7 leaves pc at 7 on both cores, and the next link is 11. -/
theorem jalr_odd :
    ¬ Aligned (after blankCsr (fun _ => 0) (fun _ => oddJump) 3) ∧
      ¬ ScAligned (scAfter blankCsr (fun _ => 0) (fun _ => oddJump) 1) oddJump.imemRdata ∧
      (scAfter blankCsr (fun _ => 0) (fun _ => oddJump) 2).regfile 5 = 11 := by
  refine ⟨fun aligned => ?_, fun aligned => ?_, by decide +kernel⟩
  · have odd : (after blankCsr (fun _ => 0) (fun _ => oddJump) 3).pc = 7 := by decide +kernel
    have even := aligned.pc
    rw [odd] at even
    exact absurd even (by decide)
  · have odd : (scAfter blankCsr (fun _ => 0) (fun _ => oddJump) 1).pc = 7 := by decide +kernel
    have even := aligned.pc
    rw [odd] at even
    exact absurd even (by decide)

end RiscvSoc.Cpu.PcParity
