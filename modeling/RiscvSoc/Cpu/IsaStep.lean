/- GID: RiscvSoc/Cpu/IsaStep
   generality: G
   utility: support
   digest: What the single-cycle core makes of a word is what the ISA says of its instruction. -/

import RiscvSoc.Cpu.Architecture
import RiscvSoc.Cpu.Conformance
import RiscvSoc.Cpu.MemAccess
import RiscvSoc.Isa.Rv32Hart

set_option autoImplicit false
set_option relaxedAutoImplicit false

namespace RiscvSoc.Cpu.IsaStep

open RiscvSoc.Cpu.Decoder
open RiscvSoc.Cpu.DecoderFacts
open RiscvSoc.Cpu.Datapath
open RiscvSoc.Cpu.SingleCycle
open RiscvSoc.Cpu.Conformance
open RiscvSoc.Cpu.Architecture
open RiscvSoc.Cpu.MemAccess (IsLoad IsStore isSInstr_load isSInstr_store isLoad_load isLoad_store
  isCsr_load decFlags_load decFlags_store aluResult_load aluResult_store loadFlags storeFlags
  storeMask_lanes)
open RiscvSoc.Isa.Rv32Alu
open RiscvSoc.Isa.Rv32Instr (Instr Encoding RegOp ImmOp ShiftOp BranchOp CsrOp CsrSource csrSource)
open RiscvSoc.Isa.Rv32Hart
open RiscvSoc.Memory.ByteLanes
open RiscvSoc.Memory.ByteMemory

section State

def csrSpace : CsrSpace CsrFile where
  read := CsrFile.read
  write := CsrFile.write

/-- The register file as its read ports show it. -/
def archRegs (r : RegFile) : Regs where
  read := r.port
  zero := rfl

def hartOf (c : ScCore) : Hart CsrFile where
  pc := c.pc
  regs := archRegs c.regfile
  csr := c.csr

private theorem archRegs_set {i : Reg} (nonzero : i ≠ 0) (r : RegFile) (v : Word) :
    archRegs (r.set i v) = (archRegs r).set i v := by
  apply Regs.ext
  funext j
  change (r.set i v).port j = if j = i ∧ i ≠ 0 then v else r.port j
  by_cases zero : j = 0
  · subst zero
    rw [if_neg fun same => nonzero same.1.symm]
    rfl
  · simp only [RegFile.port, RegFile.set, if_neg zero, nonzero, ne_eq, not_false_eq_true, and_true]

private theorem write_read (f : CsrFile) (a : CsrAddr) : f.write a (f.read a) = f := by
  by_cases known : a ∈ [aMstatus, aMie, aMtvec, aMscratch, aMepc, aMcause, aMtval, aMip]
  · simp only [List.mem_cons, List.not_mem_nil, or_false] at known
    rcases known with rfl | rfl | rfl | rfl | rfl | rfl | rfl | rfl <;> rfl
  · simp only [List.mem_cons, List.not_mem_nil, or_false, not_or] at known
    simp only [CsrFile.write, known, if_false]

variable {c : ScCore} {w : Word}

private theorem archRegs_nextRegfile (writes : rdValid w = true) (ldData : Word) :
    archRegs (c.nextRegfile w ldData) = (archRegs c.regfile).set (rd w) (c.wrData w ldData) := by
  by_cases zero : rd w = 0
  · have dropped : c.nextRegfile w ldData = c.regfile := by
      simp [ScCore.nextRegfile, ScCore.wrEn, zero]
    rw [dropped, zero]
    exact Regs.set_zero.symm
  · simp only [ScCore.nextRegfile, ScCore.wrEn, zero, if_false, writes, Bool.true_and, bne_iff_ne,
      ne_eq, not_false_eq_true, if_true]
    exact archRegs_set zero _ _

private theorem nextRegfile_of_not_rdValid (writes : rdValid w = false) (ldData : Word) :
    c.nextRegfile w ldData = c.regfile := by
  simp [ScCore.nextRegfile, ScCore.wrEn, writes]

end State

section Classes

variable {c : ScCore} {w : Word} {ldData : Word}

/-- Words that are no privileged ones and whose flags are those of `f`. -/
structure Decodes (w : Word) (f : DecFlags) (g : Format) : Prop where
  flags : decFlags w = f
  format : format w = g
  ecall : isEcall w = false
  ebreak : isEbreak w = false
  mret : isMret w = false

namespace Decodes

variable {f : DecFlags} {g : Format}

private theorem isCsr_eq (d : Decodes w f g) :
    isCsr w = f.csr.isCsr := by
  rw [isCsr, csrFlags, d.flags]

private theorem isLoad_eq (d : Decodes w f g) :
    isLoad w = f.op.isLoad := by
  rw [isLoad, opFlags, d.flags]

private theorem rdValid_eq (d : Decodes w f g) :
    rdValid w = (g.isR || g.isI || g.isU || g.isJ || f.csr.isCsr) := by
  rw [rdValid, d.format, d.isCsr_eq]

private theorem takenBr_eq (d : Decodes w f g) :
    c.takenBr w = Datapath.takenBr f.op (c.src1Value w) (c.src2Value w) := by
  rw [ScCore.takenBr, opFlags, d.flags]

private theorem result_eq (d : Decodes w f g) :
    c.result w =
      aluResult f.op f.op.isLoad g.isS (c.src1Value w) (c.src2Value w) (imm w) c.pc := by
  rw [ScCore.result, opFlags, d.flags, d.isLoad_eq, isSInstr, d.format]

private theorem nextPc_eq (d : Decodes w f g) :
    c.nextPc w =
      if Datapath.takenBr f.op (c.src1Value w) (c.src2Value w) || f.op.isJal then c.pc + imm w
      else if f.op.isJalr then c.src1Value w + imm w
      else c.pc + 4 := by
  rw [ScCore.nextPc, d.takenBr_eq, opFlags, d.flags, d.ecall, d.ebreak, d.mret]
  rfl

private theorem nextCsr_eq (d : Decodes w f g) (csr : f.csr.isCsr = false) :
    c.nextCsr w = c.csr := by
  rw [ScCore.nextCsr, d.isCsr_eq, csr, d.ecall, d.ebreak]
  rfl

private theorem wrData_eq (d : Decodes w f g) (csr : f.csr.isCsr = false)
    (load : f.op.isLoad = false) :
    c.wrData w ldData = c.result w := by
  rw [ScCore.wrData, d.isCsr_eq, d.isLoad_eq, csr, load]
  rfl

end Decodes

private theorem decodes_of_opcode {op : BitVec 7} {f : DecFlags} (op_eq : opcode w = op)
    (system : op ≠ 0b1110011)
    (flags : ∀ b25 b30, decBitsCase b25 b30 (funct3 w) op = f) :
    Decodes w f (decoderLogic (op.extractLsb' 2 5)) := by
  have other : (opcode w == 0b1110011) = false := beq_eq_false_iff_ne.mpr (op_eq ▸ system)
  refine ⟨?_, ?_, ?_, ?_, ?_⟩
  · rw [decFlags, op_eq]
    exact flags _ _
  · rw [format_opcode, op_eq]
  · rw [isEcall, other, Bool.false_and, Bool.false_and]
  · rw [isEbreak, other, Bool.false_and, Bool.false_and]
  · rw [isMret, other, Bool.false_and, Bool.false_and]

private theorem decodes_encodes {m : Mnemonic} (legal : Encodes m w) :
    Decodes w { op := opFlagOf m } (decoderLogic (m.encoding.opcode.extractLsb' 2 5)) := by
  obtain ⟨ecall, ebreak, mret⟩ := priv_encodes legal
  exact ⟨decFlags_encodes legal, format_encodes legal, ecall, ebreak, mret⟩

private theorem execute_alu {m : Mnemonic} (legal : Encodes m w) :
    hartOf (execute c w ldData) =
      (hartOf c).write (rd w) (m.value w c.pc (c.src1Value w) (c.src2Value w)) := by
  have d := decodes_encodes legal
  have writes : rdValid w = true := by
    rw [d.rdValid_eq]
    cases m <;> rfl
  have value : c.wrData w ldData = m.value w c.pc (c.src1Value w) (c.src2Value w) := by
    rw [d.wrData_eq rfl (by cases m <;> rfl)]
    exact aluResult_encodes legal _ _ _
  apply Hart.ext
  · change c.nextPc w = c.pc + 4
    rw [d.nextPc_eq]
    cases m <;> rfl
  · change archRegs (c.nextRegfile w ldData) = _
    rw [archRegs_nextRegfile writes, value]
    rfl
  · exact d.nextCsr_eq rfl

private theorem execute_jal (op : opcode w = 0b1101111) (loaded : Word) :
    hartOf (execute c w ldData) =
      (hartOf c).exec csrSpace (.jal (rd w) (Isa.Rv32Instr.offsetJ w)) loaded := by
  have d : Decodes w { op := { isJal := true } } { isJ := true } :=
    decodes_of_opcode op (by decide) fun _ _ => rfl
  have target : imm w = (Isa.Rv32Instr.offsetJ w ++ 0#1).signExtend 32 := by
    rw [imm, d.format]
    rfl
  apply Hart.ext
  · change c.nextPc w = c.pc + _
    rw [d.nextPc_eq, Bool.or_true, if_pos rfl, target]
  · change archRegs (c.nextRegfile w ldData) = _
    rw [archRegs_nextRegfile (d.rdValid_eq.trans rfl), d.wrData_eq rfl rfl, d.result_eq]
    rfl
  · exact d.nextCsr_eq rfl

def oddJump (h : Hart CsrFile) : Instr → Bool
  | .jalr _ rs1 imm => (h.regs.read rs1 + imm.signExtend 32).getLsbD 0
  | _ => false

private theorem and_not_one {v : Word} (even : v.getLsbD 0 = false) : v &&& ~~~1#32 = v := by
  apply BitVec.eq_of_getLsbD_eq
  intro i hi
  rw [BitVec.getLsbD_and, BitVec.getLsbD_not, BitVec.getLsbD_one]
  rcases Nat.eq_zero_or_pos i with rfl | pos
  · rw [even]
    rfl
  · simp [hi, show i ≠ 0 by omega]

private theorem execute_jalr (op : opcode w = 0b1100111) (loaded : Word)
    (even : oddJump (hartOf c) (.jalr (rd w) (rs1 w) (Isa.Rv32Instr.immI w)) = false) :
    hartOf (execute c w ldData) =
      (hartOf c).exec csrSpace (.jalr (rd w) (rs1 w) (Isa.Rv32Instr.immI w)) loaded := by
  have d : Decodes w { op := { isJalr := true } } { isI := true } :=
    decodes_of_opcode op (by decide) fun _ _ => rfl
  have target : c.nextPc w = c.src1Value w + (Isa.Rv32Instr.immI w).signExtend 32 := by
    have offset : imm w = (Isa.Rv32Instr.immI w).signExtend 32 := by
      rw [imm, d.format]
      rfl
    rw [d.nextPc_eq, offset]
    rfl
  apply Hart.ext
  · exact target.trans (and_not_one even).symm
  · change archRegs (c.nextRegfile w ldData) = _
    rw [archRegs_nextRegfile (d.rdValid_eq.trans rfl), d.wrData_eq rfl rfl, d.result_eq]
    rfl
  · exact d.nextCsr_eq rfl

def branchFlag : BranchOp → OpFlags
  | .beq => { isBeq := true }
  | .bne => { isBne := true }
  | .blt => { isBlt := true }
  | .bge => { isBge := true }
  | .bltu => { isBltu := true }
  | .bgeu => { isBgeu := true }

private theorem lt_xor_msb (a b : Word) :
    (decide (a < b) ^^ (a.msb != b.msb)) = decide (a.toInt < b.toInt) := by
  rw [← BitVec.slt_eq_decide, BitVec.slt_eq_ult, Bool.xor_comm]
  rfl

private theorem le_xor_msb (a b : Word) :
    (decide (b ≤ a) ^^ (a.msb != b.msb)) = decide (b.toInt ≤ a.toInt) := by
  have flip : decide (b ≤ a) = !decide (a < b) := by simp [← BitVec.not_lt]
  rw [flip, Bool.not_xor, lt_xor_msb, Bool.eq_iff_iff]
  simp

private theorem takenBr_branch (op : BranchOp) (a b : Word) :
    Datapath.takenBr (branchFlag op) a b = op.taken a b := by
  cases op with
  | beq | bltu | bgeu => rfl
  | bne =>
    change (a != b) = decide (a ≠ b)
    rw [bne, decide_not]
    rfl
  | blt => exact lt_xor_msb a b
  | bge => exact le_xor_msb a b

private theorem execute_branch {o : BranchOp} (op : opcode w = 0b1100011) (f3 : funct3 w = o.funct3)
    (loaded : Word) :
    hartOf (execute c w ldData) =
      (hartOf c).exec csrSpace (.branch o (rs1 w) (rs2 w) (Isa.Rv32Instr.offsetB w)) loaded := by
  have d : Decodes w { op := branchFlag o } { isB := true } := by
    refine decodes_of_opcode op (by decide) fun b25 b30 => ?_
    rw [f3]
    cases o <;> rfl
  have target : imm w = (Isa.Rv32Instr.offsetB w ++ 0#1).signExtend 32 := by
    rw [imm, d.format]
    rfl
  have jumps : (branchFlag o).isJal = false ∧ (branchFlag o).isJalr = false := by
    cases o <;> exact ⟨rfl, rfl⟩
  apply Hart.ext
  · change c.nextPc w = _
    rw [d.nextPc_eq, takenBr_branch, jumps.1, jumps.2, Bool.or_false, target]
    rfl
  · change archRegs (c.nextRegfile w ldData) = _
    rw [nextRegfile_of_not_rdValid (d.rdValid_eq.trans rfl)]
    rfl
  · exact d.nextCsr_eq rfl

private theorem execute_load {o : LoadOp} (load : IsLoad o w) (loaded : Word)
    (data : c.wrData w ldData = loaded) :
    hartOf (execute c w ldData) =
      (hartOf c).exec csrSpace (.load o (rd w) (rs1 w) (Isa.Rv32Instr.immI w)) loaded := by
  have d : Decodes w { op := loadFlags o } { isI := true } := by
    refine decodes_of_opcode load.1 (by decide) fun b25 b30 => ?_
    rw [load.2]
    cases o <;> cases b25 <;> cases b30 <;> rfl
  apply Hart.ext
  · change c.nextPc w = c.pc + 4
    rw [d.nextPc_eq]
    cases o <;> rfl
  · change archRegs (c.nextRegfile w ldData) = _
    rw [archRegs_nextRegfile (d.rdValid_eq.trans rfl), data]
    rfl
  · exact d.nextCsr_eq rfl

private theorem execute_store {o : StoreOp} (store : IsStore o w) (loaded : Word) :
    hartOf (execute c w ldData) =
      (hartOf c).exec csrSpace (.store o (rs1 w) (rs2 w) (Isa.Rv32Instr.immS w)) loaded := by
  have d : Decodes w { op := storeFlags o } { isS := true } := by
    refine decodes_of_opcode store.1 (by decide) fun b25 b30 => ?_
    rw [store.2]
    cases o <;> cases b25 <;> cases b30 <;> rfl
  apply Hart.ext
  · change c.nextPc w = c.pc + 4
    rw [d.nextPc_eq]
    cases o <;> rfl
  · change archRegs (c.nextRegfile w ldData) = _
    rw [nextRegfile_of_not_rdValid (d.rdValid_eq.trans rfl)]
    rfl
  · exact d.nextCsr_eq rfl

/-- The mnemonic of a CSR access, with the operand in a register or in the word. -/
def csrFlag : CsrOp → Bool → CsrFlags
  | .rw, false => { isCsrrw := true }
  | .rs, false => { isCsrrs := true }
  | .rc, false => { isCsrrc := true }
  | .rw, true => { isCsrrwi := true }
  | .rs, true => { isCsrrsi := true }
  | .rc, true => { isCsrrci := true }

private theorem decBitsCase_csr (o : CsrOp) (b25 b30 : Bool) : ∀ f3 : BitVec 3,
    f3.extractLsb' 0 2 = o.funct2 →
    decBitsCase b25 b30 f3 0b1110011 = { csr := csrFlag o (f3.getLsbD 2) } := by
  cases o <;> cases b25 <;> cases b30 <;> decide

private theorem execute_csr {o : CsrOp} (op : opcode w = 0b1110011)
    (f3 : (funct3 w).extractLsb' 0 2 = o.funct2) (loaded : Word) :
    hartOf (execute c w ldData) =
      (hartOf c).exec csrSpace (.csr o (rd w) (csrSource w) (Isa.Rv32Instr.immI w)) loaded := by
  have flags : csrFlags w = csrFlag o ((funct3 w).getLsbD 2) := by
    rw [csrFlags, decFlags, op, decBitsCase_csr o _ _ _ f3]
  have csr : isCsr w = true := by
    rw [isCsr, flags]
    cases o <;> cases (funct3 w).getLsbD 2 <;> rfl
  obtain ⟨opNone, form, ecall, ebreak, mret⟩ := of_isCsr csr
  have operand : c.opVal w = (archRegs c.regfile).source (csrSource w) := by
    rw [ScCore.opVal, flags, csrSource]
    change _ = (archRegs c.regfile).source (if (funct3 w).getLsbD 2 then _ else _)
    cases o <;> cases (funct3 w).getLsbD 2 <;> rfl
  have value : c.csrWdata w = o.value (c.csrRdata w) (c.opVal w) := by
    rw [ScCore.csrWdata, flags]
    cases o <;> cases (funct3 w).getLsbD 2 <;> rfl
  apply Hart.ext
  · change c.nextPc w = c.pc + 4
    simp [ScCore.nextPc, ScCore.takenBr, opNone, Datapath.takenBr, ecall, ebreak, mret]
  · change archRegs (c.nextRegfile w ldData) = _
    have writes : rdValid w = true := by rw [rdValid, csr, Bool.or_true]
    rw [archRegs_nextRegfile writes, ScCore.wrData, if_pos csr]
    rfl
  · change c.nextCsr w = if o.writes (csrSource w) then _ else c.csr
    rw [ScCore.nextCsr, if_pos csr, value, operand]
    split_ifs with write
    · rfl
    · rw [value_of_not_writes (Bool.eq_false_iff.mpr write)]
      exact write_read _ _

end Classes

section Bytes

variable {n : ℕ}

/-- The address bits that a memory of `2 ^ n` words decodes. -/
def byteIndex (n : ℕ) (a : Word) : BitVec (n + 2) := a.extractLsb' 0 (n + 2)

private theorem wordAddr_byteIndex (a : Word) : wordAddr (byteIndex n a) = a.extractLsb' 2 n := by
  ext i hi
  simp [wordAddr, byteIndex, show 2 + i < n + 2 by omega]

private theorem byteLane_byteIndex (a : Word) :
    byteLane (byteIndex n a) = (a.extractLsb' 0 2).toNat := by
  have low : (byteIndex n a).extractLsb' 0 2 = a.extractLsb' 0 2 := by
    ext i hi
    simp [byteIndex]
  exact congrArg BitVec.toNat low

private theorem aligned_byteIndex {a : Word} {size : ℕ} (divides : size ∣ 4)
    (aligned : a.toNat % size = 0) :
    (byteIndex n a).toNat % size = 0 ∧ (a.extractLsb' 0 2).toNat % size = 0 := by
  have wide : size ∣ 2 ^ (n + 2) := by
    rw [Nat.pow_add]
    exact Nat.dvd_trans divides (Nat.dvd_mul_left 4 (2 ^ n))
  simp only [byteIndex, BitVec.extractLsb'_toNat, Nat.shiftRight_zero]
  rw [Nat.mod_mod_of_dvd _ wide, Nat.mod_mod_of_dvd _ (by simpa using divides)]
  exact ⟨aligned, aligned⟩

private theorem size_dvd_load (o : LoadOp) : o.size ∣ 4 := by cases o <;> decide

private theorem size_dvd_store (o : StoreOp) : o.size ∣ 4 := by cases o <;> decide

/-- The extraction of a core on the word it reads is a load from the bytes. -/
theorem ldExtracted_bytes (m : BitVec n → Word) (o : LoadOp) {a : Word}
    (aligned : a.toNat % o.size = 0) :
    ldExtracted (loadFlags o).isLb (loadFlags o).isLh (loadFlags o).isLbu (loadFlags o).isLhu
        (a.extractLsb' 0 2) (m (a.extractLsb' 2 n)) =
      (bytes m).read (byteIndex n a) o := by
  rw [read_bytes m _ o (aligned_byteIndex (size_dvd_load o) aligned).1, wordAddr_byteIndex,
    byteLane_byteIndex]
  cases o <;> rfl

/-- The masked write of a core is a store to the bytes. -/
theorem bytes_store (m : BitVec n → Word) (o : StoreOp) (v : Word) {a : Word}
    (aligned : a.toNat % o.size = 0) :
    bytes (writeMasked m (a.extractLsb' 2 n) (storeData v (a.extractLsb' 0 2))
        (storeMask (storeFlags o).isSb (storeFlags o).isSh (storeFlags o).isSw
          (a.extractLsb' 0 2))) =
      (bytes m).write (byteIndex n a) o v := by
  obtain ⟨whole, offset⟩ := aligned_byteIndex (n := n) (size_dvd_store o) aligned
  have mask := storeMask_lanes o _ offset
  rw [← byteLane_byteIndex (n := n)] at mask
  rw [← bytes_writeMasked m _ o v _ whole mask, wordAddr_byteIndex, byteLane_byteIndex]
  rfl

end Bytes

section Step

variable {c : ScCore} {w : Word} {i : Instr}

def Drives (c : ScCore) (w : Word) : Option (Access 30) → Prop
  | none => (c.dataPort w).we = false
  | some (.load o a) =>
    (c.dataPort w).we = false ∧ (c.dataPort w).addr = a ∧
      ∀ ldData, c.wrData w ldData = ldExtracted (loadFlags o).isLb (loadFlags o).isLh
        (loadFlags o).isLbu (loadFlags o).isLhu (a.extractLsb' 0 2) ldData
  | some (.store o a v) =>
    (c.dataPort w).we = true ∧ (c.dataPort w).addr = a ∧
      (c.dataPort w).wdata = storeData v (a.extractLsb' 0 2) ∧
      (c.dataPort w).byteena = storeMask (storeFlags o).isSb (storeFlags o).isSh
        (storeFlags o).isSw (a.extractLsb' 0 2)

private theorem imm_load {o : LoadOp} (load : IsLoad o w) :
    imm w = (Isa.Rv32Instr.immI w).signExtend 32 := by
  rw [imm, format_opcode, load.1]
  rfl

private theorem imm_store {o : StoreOp} (store : IsStore o w) :
    imm w = (Isa.Rv32Instr.immS w).signExtend 32 := by
  rw [imm, format_opcode, store.1]
  rfl

private theorem we_of_opcode {op : BitVec 7} (op_eq : opcode w = op)
    (other : (decoderLogic (op.extractLsb' 2 5)).isS = false) : (c.dataPort w).we = false := by
  change isSInstr w = false
  rw [isSInstr, format_opcode, op_eq, other]

theorem drives_access (enc : Encoding w i) : Drives c w ((hartOf c).access i) := by
  cases enc with
  | lui op | auipc op | jal op | jalr op _ | branch _ op _ | csr _ op _ =>
    exact we_of_opcode op (by decide)
  | imm o legal | shift o legal | reg o legal => exact (class_encodes legal).2
  | load o op f3 =>
    have load : IsLoad o w := ⟨op, f3⟩
    obtain ⟨we, -, addr, data⟩ := MemAccess.port_load (e := .singleCycle w c) trivial load 0
    have sum : (MemAccess.Slot.singleCycle w c).addr =
        c.src1Value w + (Isa.Rv32Instr.immI w).signExtend 32 := by
      rw [MemAccess.Slot.addr, ← imm_load load]
      rfl
    rw [sum] at addr
    refine ⟨we, addr, fun ldData => ?_⟩
    have data := (MemAccess.port_load (e := .singleCycle w c) trivial load ldData).2.2.2
    rw [sum] at data
    exact data
  | store o op f3 =>
    have store : IsStore o w := ⟨op, f3⟩
    obtain ⟨we, -, addr, wdata, byteena⟩ :=
      MemAccess.port_store (e := .singleCycle w c) trivial store
    have sum : (MemAccess.Slot.singleCycle w c).addr =
        c.src1Value w + (Isa.Rv32Instr.immS w).signExtend 32 := by
      rw [MemAccess.Slot.addr, ← imm_store store]
      rfl
    rw [sum] at addr wdata byteena
    exact ⟨we, addr, wdata, byteena⟩

private theorem rows_load_opcode : ∀ r ∈ decBitsRows, r.flags.op.isLoad = true →
    r.opcode = Isa.Rv32Instr.opLoad := by
  decide

private theorem opcode_of_load (load : isLoad w = true) : opcode w = Isa.Rv32Instr.opLoad := by
  rcases decFlags_cases w with none | ⟨r, member, flags, opc, -⟩
  · simp [isLoad, opFlags, none, OpFlags.isLoad] at load
  · exact opc.trans (rows_load_opcode r member (by rwa [isLoad, opFlags, flags] at load))

theorem access_of_load (enc : Encoding w i) (load : isLoad w = true) :
    ∃ o, (hartOf c).access i = some (.load o (c.dataPort w).addr) := by
  have op := opcode_of_load load
  have drives := drives_access (c := c) enc
  cases enc with
  | lui op' | auipc op' | jal op' | jalr op' _ | branch _ op' _ | store _ op' _ | csr _ op' _ =>
    exact absurd (op.symm.trans op') (by decide)
  | imm o legal | shift o legal | reg o legal =>
    exact absurd ((class_encodes legal).1.symm.trans load) Bool.false_ne_true
  | load o op' f3 =>
    refine ⟨o, ?_⟩
    rw [drives.2.1]
    rfl

theorem access_of_store (enc : Encoding w i) (store : isSInstr w = true) :
    ∃ o v, (hartOf c).access i = some (.store o (c.dataPort w).addr v) ∧
      (c.dataPort w).byteena = storeMask (storeFlags o).isSb (storeFlags o).isSh
        (storeFlags o).isSw ((c.dataPort w).addr.extractLsb' 0 2) := by
  have drives := drives_access (c := c) enc
  have we : (c.dataPort w).we = true := store
  match (hartOf c).access i, drives with
  | none, idle => exact absurd ((show _ = false from idle).symm.trans we) Bool.false_ne_true
  | some (.load o a), ⟨idle, _⟩ => exact absurd (idle.symm.trans we) Bool.false_ne_true
  | some (.store o a v), ⟨_, addr, _, byteena⟩ =>
    rw [addr]
    exact ⟨o, v, rfl, byteena⟩

private theorem value_imm (o : ImmOp) (pc a b : Word) :
    o.mnemonic.value w pc a b = o.reg.value a ((Isa.Rv32Instr.immI w).signExtend 32) := by
  cases o <;> rfl

private theorem value_shift (o : ShiftOp) (pc a b : Word) :
    o.mnemonic.value w pc a b = o.reg.value a ((Isa.Rv32Instr.rs2 w).setWidth 32) := by
  have small : ((Isa.Rv32Instr.rs2 w).setWidth 32).toNat % 32 = shamt w := by
    have lt := (Isa.Rv32Instr.rs2 w).isLt
    have wide : ((Isa.Rv32Instr.rs2 w).setWidth 32).toNat = (Isa.Rv32Instr.rs2 w).toNat := by
      rw [BitVec.toNat_setWidth]
      exact Nat.mod_eq_of_lt (by omega)
    rw [wide]
    exact Nat.mod_eq_of_lt lt
  cases o <;>
    · change _ = Mnemonic.value _ _ _ _ _
      simp only [ShiftOp.mnemonic, ShiftOp.reg, RegOp.mnemonic, Mnemonic.value, small]

private theorem value_reg (o : RegOp) (pc a b : Word) :
    o.mnemonic.value w pc a b = o.value a b := by
  cases o <;> rfl

private theorem encodes_upper {m : Mnemonic} (op : opcode w = m.encoding.opcode)
    (fields : (m.encoding.funct3, m.encoding.funct7) = (none, none)) : Encodes m w := by
  obtain ⟨f3, f7⟩ := Prod.mk.inj fields
  refine ⟨op, ?_, ?_⟩
  · rw [f3]
    exact fun _ none => absurd none (Option.not_mem_none _)
  · rw [f7]
    exact fun _ none => absurd none (Option.not_mem_none _)

/-- On every word of an instruction the core does what the ISA says, except that it jumps to the
odd target of a JALR as it is. -/
theorem execute_encoding (enc : Encoding w i) (even : oddJump (hartOf c) i = false)
    {ldData loaded : Word}
    (data : ∀ o a, (hartOf c).access i = some (.load o a) → c.wrData w ldData = loaded) :
    hartOf (execute c w ldData) = (hartOf c).exec csrSpace i loaded := by
  cases enc with
  | lui op => exact execute_alu (m := .lui) (encodes_upper op rfl)
  | auipc op => exact execute_alu (m := .auipc) (encodes_upper op rfl)
  | jal op => exact execute_jal op loaded
  | jalr op _ => exact execute_jalr op loaded even
  | branch o op f3 => exact execute_branch op f3 loaded
  | load o op f3 => exact execute_load ⟨op, f3⟩ loaded (data _ _ rfl)
  | store o op f3 => exact execute_store ⟨op, f3⟩ loaded
  | imm o legal =>
    rw [execute_alu legal, value_imm]
    rfl
  | shift o legal =>
    rw [execute_alu legal, value_shift]
    rfl
  | reg o legal =>
    rw [execute_alu legal, value_reg]
    rfl
  | csr o op f3 => exact execute_csr op f3 loaded

end Step

end RiscvSoc.Cpu.IsaStep
