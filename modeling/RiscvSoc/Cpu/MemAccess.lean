/- GID: RiscvSoc/Cpu/MemAccess
   generality: G
   utility: main
   digest: Loads and stores of both cores on the BRAM as accesses to a byte memory. -/

import RiscvSoc.Cpu.DecoderFacts
import RiscvSoc.Cpu.Pipeline
import RiscvSoc.Cpu.SingleCycle
import RiscvSoc.Memory.ByteMemory
import RiscvSoc.Memory.DpRam

set_option autoImplicit false
set_option relaxedAutoImplicit false

namespace RiscvSoc.Cpu.MemAccess

open RiscvSoc.Cpu.Decoder
open RiscvSoc.Cpu.DecoderFacts
open RiscvSoc.Cpu.Datapath
open RiscvSoc.Cpu.Pipeline
open RiscvSoc.Cpu.SingleCycle
open RiscvSoc.Memory.ByteLanes
open RiscvSoc.Memory.ByteMemory
open RiscvSoc.Memory.DpRam

section Encoding

/-- The `funct3` of each load under opcode 0000011 and of each store under 0100011. -/
def loadFunct3 : LoadOp → BitVec 3
  | .lb => 0b000
  | .lh => 0b001
  | .lw => 0b010
  | .lbu => 0b100
  | .lhu => 0b101

def storeFunct3 : StoreOp → BitVec 3
  | .sb => 0b000
  | .sh => 0b001
  | .sw => 0b010

def IsLoad (op : LoadOp) (instr : Word) : Prop :=
  opcode instr = 0b0000011 ∧ funct3 instr = loadFunct3 op

def IsStore (op : StoreOp) (instr : Word) : Prop :=
  opcode instr = 0b0100011 ∧ funct3 instr = storeFunct3 op

def loadFlags : LoadOp → OpFlags
  | .lb => { isLb := true }
  | .lh => { isLh := true }
  | .lw => { isLw := true }
  | .lbu => { isLbu := true }
  | .lhu => { isLhu := true }

def storeFlags : StoreOp → OpFlags
  | .sb => { isSb := true }
  | .sh => { isSh := true }
  | .sw => { isSw := true }

variable {instr : Word}

theorem decFlags_load {op : LoadOp} (load : IsLoad op instr) :
    decFlags instr = { op := loadFlags op } := by
  rw [decFlags, load.1, load.2]
  cases op <;> cases instr.getLsbD 25 <;> cases instr.getLsbD 30 <;> rfl

theorem decFlags_store {op : StoreOp} (store : IsStore op instr) :
    decFlags instr = { op := storeFlags op } := by
  rw [decFlags, store.1, store.2]
  cases op <;> cases instr.getLsbD 25 <;> cases instr.getLsbD 30 <;> rfl

theorem isSInstr_load {op : LoadOp} (load : IsLoad op instr) : isSInstr instr = false := by
  rw [isSInstr, format_opcode, load.1]
  rfl

theorem isSInstr_store {op : StoreOp} (store : IsStore op instr) : isSInstr instr = true := by
  rw [isSInstr, format_opcode, store.1]
  rfl

theorem isLoad_load {op : LoadOp} (load : IsLoad op instr) : isLoad instr = true := by
  rw [isLoad, opFlags, decFlags_load load]
  cases op <;> rfl

theorem isLoad_store {op : StoreOp} (store : IsStore op instr) : isLoad instr = false := by
  rw [isLoad, opFlags, decFlags_store store]
  cases op <;> rfl

theorem isCsr_load {op : LoadOp} (load : IsLoad op instr) : isCsr instr = false := by
  rw [isCsr, csrFlags, decFlags_load load]
  rfl

theorem aluResult_load {op : LoadOp} (load : IsLoad op instr) (a b i pc : Word) :
    aluResult (opFlags instr) (isLoad instr) (isSInstr instr) a b i pc = a + i := by
  rw [isLoad_load load, isSInstr_load load, opFlags, decFlags_load load]
  cases op <;> rfl

theorem aluResult_store {op : StoreOp} (store : IsStore op instr) (a b i pc : Word) :
    aluResult (opFlags instr) (isLoad instr) (isSInstr instr) a b i pc = a + i := by
  rw [isLoad_store store, isSInstr_store store, opFlags, decFlags_store store]
  cases op <;> rfl

end Encoding

section Slots

/-- An instruction in the memory stage of a core: in EX of the pipelined core, about to enter
MEM, or fetched by the single-cycle core. -/
inductive Slot where
  | pipelined (instr : Word) (x : IdEx)
  | singleCycle (instr : Word) (s : ScCore)

namespace Slot

def instr : Slot → Word
  | .pipelined instr _ => instr
  | .singleCycle instr _ => instr

def src1 : Slot → Word
  | .pipelined _ x => x.src1Value
  | .singleCycle instr s => s.src1Value instr

def src2 : Slot → Word
  | .pipelined _ x => x.src2Value
  | .singleCycle instr s => s.src2Value instr

def port : Slot → DataPort
  | .pipelined _ x => x.toExMem.dataPort
  | .singleCycle instr s => s.dataPort instr

/-- What the instruction hands to the register write, given `ld_data`. -/
def wrData (e : Slot) (ldData : Word) : Word :=
  match e with
  | .pipelined _ x => x.toExMem.wrData ldData
  | .singleCycle instr s => s.wrData instr ldData

/-- The stage holds the decoding of the instruction. -/
def Decoded : Slot → Prop
  | .pipelined instr x => x.valid = true ∧ x.ctrl = Core.idCtrlBus instr ∧ x.imm = imm instr
  | .singleCycle _ _ => True

/-- The effective address. -/
def addr (e : Slot) : Word := e.src1 + imm e.instr

end Slot

variable {e : Slot}

private theorem result_pipelined {x : IdEx} {instr : Word}
    (decoded : (Slot.pipelined instr x).Decoded) :
    x.result = aluResult (opFlags instr) (isLoad instr) (isSInstr instr) x.src1Value x.src2Value
      (imm instr) x.pc := by
  rw [IdEx.result, decoded.2.1, decoded.2.2]
  rfl

theorem port_load {op : LoadOp} (decoded : e.Decoded) (load : IsLoad op e.instr) (ldData : Word) :
    e.port.we = false ∧ e.port.re = true ∧ e.port.addr = e.addr ∧
      e.wrData ldData = ldExtracted (loadFlags op).isLb (loadFlags op).isLh (loadFlags op).isLbu
        (loadFlags op).isLhu (e.addr.extractLsb' 0 2) ldData := by
  cases e with
  | pipelined instr x =>
    change IsLoad op instr at load
    have sum : x.result = x.src1Value + imm instr :=
      (result_pipelined decoded).trans (aluResult_load load _ _ _ _)
    obtain ⟨valid, ctrl, -⟩ := decoded
    refine ⟨?_, ?_, sum, ?_⟩
    · simp [Slot.port, ExMem.dataPort, IdEx.toExMem, ctrl, Core.idCtrlBus, isSInstr_load load]
    · simp [Slot.port, ExMem.dataPort, IdEx.toExMem, ctrl, Core.idCtrlBus, isLoad_load load, valid]
    · simp [Slot.wrData, ExMem.wrData, ExMem.byteOff, IdEx.toExMem, ctrl, Core.idCtrlBus,
        isLoad_load load, opFlags, decFlags_load load, sum, Slot.addr, Slot.src1, Slot.instr]
  | singleCycle instr s =>
    change IsLoad op instr at load
    have sum : s.result instr = s.src1Value instr + imm instr := aluResult_load load _ _ _ _
    refine ⟨isSInstr_load load, isLoad_load load, sum, ?_⟩
    simp [Slot.wrData, ScCore.wrData, ScCore.byteOff, isCsr_load load, isLoad_load load, opFlags,
      decFlags_load load, sum, Slot.addr, Slot.src1, Slot.instr]

theorem port_store {op : StoreOp} (decoded : e.Decoded) (store : IsStore op e.instr) :
    e.port.we = true ∧ e.port.re = false ∧ e.port.addr = e.addr ∧
      e.port.wdata = storeData e.src2 (e.addr.extractLsb' 0 2) ∧
      e.port.byteena = storeMask (storeFlags op).isSb (storeFlags op).isSh (storeFlags op).isSw
        (e.addr.extractLsb' 0 2) := by
  cases e with
  | pipelined instr x =>
    change IsStore op instr at store
    have sum : x.result = x.src1Value + imm instr :=
      (result_pipelined decoded).trans (aluResult_store store _ _ _ _)
    obtain ⟨valid, ctrl, -⟩ := decoded
    refine ⟨?_, ?_, sum, ?_, ?_⟩
    · simp [Slot.port, ExMem.dataPort, IdEx.toExMem, ctrl, Core.idCtrlBus, isSInstr_store store,
        valid]
    · simp [Slot.port, ExMem.dataPort, IdEx.toExMem, ctrl, Core.idCtrlBus, isLoad_store store]
    · simp [Slot.port, ExMem.dataPort, ExMem.byteOff, IdEx.toExMem, sum, Slot.addr, Slot.src1,
        Slot.src2, Slot.instr]
    · simp [Slot.port, ExMem.dataPort, ExMem.byteOff, IdEx.toExMem, sum, Slot.addr, Slot.src1,
        Slot.instr, ctrl, Core.idCtrlBus, opFlags, decFlags_store store]
  | singleCycle instr s =>
    change IsStore op instr at store
    have sum : s.result instr = s.src1Value instr + imm instr := aluResult_store store _ _ _ _
    refine ⟨isSInstr_store store, isLoad_store store, sum, ?_, ?_⟩
    · simp [Slot.port, ScCore.dataPort, ScCore.byteOff, sum, Slot.addr, Slot.src1, Slot.src2,
        Slot.instr]
    · simp [Slot.port, ScCore.dataPort, ScCore.byteOff, sum, Slot.addr, Slot.src1, Slot.instr,
        opFlags, decFlags_store store]

end Slots

section Bram

/-- The byte of BRAM an address selects: bits [13:0]. -/
def byteAddr (a : Word) : BitVec 14 := a.extractLsb' 0 14

theorem wordAddr_byteAddr (a : Word) : wordAddr (n := 12) (byteAddr a) = wordIndex a := by
  ext i hi
  simp [wordAddr, byteAddr, wordIndex]

theorem byteLane_byteAddr (a : Word) :
    byteLane (n := 12) (byteAddr a) = (a.extractLsb' 0 2).toNat := by
  have low : (byteAddr a).extractLsb' 0 2 = a.extractLsb' 0 2 := by
    ext i hi
    simp [byteAddr]
  exact congrArg BitVec.toNat low

/-- The mask of an aligned store covers the addressed bytes. -/
theorem storeMask_lanes (op : StoreOp) (off : BitVec 2) (aligned : off.toNat % op.size = 0) :
    ∀ k < 4, (storeMask (storeFlags op).isSb (storeFlags op).isSh (storeFlags op).isSw off).getLsbD
        k = decide (off.toNat ≤ k ∧ k < off.toNat + op.size) := by
  revert off
  cases op <;> decide

/-- One access on the memory bus, while port A fetches from some address. -/
structure Issue where
  slot : Slot
  fetch : BramAddr

def Issue.bramIn (e : Issue) : DpRamIn where
  addressA := e.fetch
  dataA := 0
  wrenA := false
  byteenaA := 0b1111
  addressB := wordIndex e.slot.port.addr
  dataB := e.slot.port.wdata
  wrenB := e.slot.port.we
  byteenaB := e.slot.port.byteena

/-- The access an instruction stands for. -/
def Issue.Performs (e : Issue) : Access 12 → Prop
  | .load op b => e.slot.Decoded ∧ IsLoad op e.slot.instr ∧ b = byteAddr e.slot.addr
  | .store op b v =>
      e.slot.Decoded ∧ IsStore op e.slot.instr ∧ b = byteAddr e.slot.addr ∧ v = e.slot.src2

/-- The memory after the accesses, and what the loads hand to the register file. -/
def runIssues (s : Bram) : List Issue → Bram × List Word
  | [] => (s, [])
  | e :: rest =>
    let t := s.posedge e.bramIn
    let r := runIssues t rest
    (r.1, if e.slot.port.re then e.slot.wrData t.qB :: r.2 else r.2)

variable {e : Issue} {b : BitVec 14}

private theorem posedge_load {op : LoadOp} (s : Bram) (performs : e.Performs (.load op b))
    (aligned : (Access.load (n := 12) op b).Aligned) :
    (s.posedge e.bramIn).mem = s.mem ∧ e.slot.port.re = true ∧
      e.slot.wrData (s.posedge e.bramIn).qB = (bytes (n := 12) s.mem).read b op := by
  obtain ⟨decoded, load, rfl⟩ := performs
  have port := port_load decoded load (s.posedge e.bramIn).qB
  have mem : (s.posedge e.bramIn).mem = s.mem := by simp [Bram.posedge, Issue.bramIn, port.1]
  have data : (s.posedge e.bramIn).qB = s.mem (wordIndex e.slot.addr) := by
    rw [Bram.qB, mem]
    simp [Bram.posedge, Issue.bramIn, port.2.2.1]
  refine ⟨mem, port.2.1, ?_⟩
  rw [port.2.2.2, data, read_bytes (n := 12) _ _ _ aligned, wordAddr_byteAddr, byteLane_byteAddr]
  cases op <;> rfl

private theorem posedge_store {op : StoreOp} {v : Word} (s : Bram)
    (performs : e.Performs (.store op b v))
    (aligned : (Access.store (n := 12) op b v).Aligned) :
    bytes (n := 12) (s.posedge e.bramIn).mem = (bytes s.mem).write b op v ∧
      e.slot.port.re = false := by
  obtain ⟨decoded, store, rfl, rfl⟩ := performs
  obtain ⟨we, re, addr, wdata, byteena⟩ := port_store decoded store
  have lane := byteLane_byteAddr e.slot.addr
  have offset : (e.slot.addr.extractLsb' 0 2).toNat % op.size = 0 := by
    rw [← lane, byteLane_eq]
    change (byteAddr e.slot.addr).toNat % op.size = 0 at aligned
    cases op <;> simp only [StoreOp.size] at aligned ⊢ <;> omega
  have mask := storeMask_lanes op _ offset
  rw [← lane] at mask
  refine ⟨?_, re⟩
  rw [← bytes_writeMasked (n := 12) _ _ _ _ _ aligned mask, wordAddr_byteAddr, lane]
  simp [Bram.posedge, Issue.bramIn, we, addr, wdata, byteena, storeData]

/-- Aligned loads and stores, in whatever order and on whichever core, implement a little-endian
byte memory. -/
theorem accesses_implement_byte_memory (s : Bram) (issues : List Issue)
    (accesses : List (Access 12)) (performs : List.Forall₂ Issue.Performs issues accesses)
    (aligned : ∀ a ∈ accesses, a.Aligned) :
    bytes (n := 12) (runIssues s issues).1.mem = (runAccesses (bytes s.mem) accesses).1 ∧
      (runIssues s issues).2 = (runAccesses (bytes s.mem) accesses).2 := by
  induction performs generalizing s with
  | nil => exact ⟨rfl, rfl⟩
  | @cons e a issues accesses first _ ih =>
    have here := aligned a List.mem_cons_self
    obtain ⟨mem, loads⟩ := ih (s.posedge e.bramIn) fun x inside =>
      aligned x (List.mem_cons_of_mem _ inside)
    cases a with
    | load op b =>
      obtain ⟨same, re, data⟩ := posedge_load s first here
      rw [same] at mem loads
      simp only [runIssues, runAccesses, re, if_true, data, loads]
      exact ⟨mem, trivial⟩
    | store op b v =>
      obtain ⟨written, re⟩ := posedge_store s first here
      rw [written] at mem loads
      simp only [runIssues, runAccesses, re, Bool.false_eq_true, if_false]
      exact ⟨mem, loads⟩

/-- `sb x2, 1(x1)` in EX of the pipelined core, with x1 = 0x100 and x2 = 0x1AB. -/
def storeByte : Issue where
  slot := .pipelined 0x002080a3
    { ctrl := Core.idCtrlBus 0x002080a3, imm := imm 0x002080a3, src1Value := 0x100
      src2Value := 0x1AB, valid := true }
  fetch := 0

/-- `lb x3, 1(x1)` on the single-cycle core. -/
def loadByte : Issue where
  slot := .singleCycle 0x00108183
    { pc := 0, regfile := fun r => if r = 1 then 0x100 else 0, csr := ⟨0, 0, 0, 0, 0, 0, 0, 0⟩ }
  fetch := 0

/-- The byte that was stored comes back with its sign. -/
theorem accesses_implement_byte_memory_sb_lb :
    (runIssues ⟨fun _ => 0, 0, 0⟩ [storeByte, loadByte]).2 = [0xFFFFFFAB] :=
  (accesses_implement_byte_memory ⟨fun _ => 0, 0, 0⟩ [storeByte, loadByte]
    [.store .sb 0x101 0x1AB, .load .lb 0x101]
    (.cons ⟨⟨rfl, rfl, rfl⟩, ⟨by decide, by decide⟩, by decide, by decide⟩
      (.cons ⟨trivial, ⟨by decide, by decide⟩, by decide⟩ .nil))
    (by
      intro a inside
      simp only [List.mem_cons, List.not_mem_nil, or_false] at inside
      obtain rfl | rfl := inside <;> rfl)).2.trans (by decide)

end Bram

end RiscvSoc.Cpu.MemAccess
