/- GID: RiscvSoc/Cpu/PipelineEdge
   generality: G
   utility: support
   digest: What one clock edge of the pipeline can do, and the two invariants every run keeps. -/

import RiscvSoc.Cpu.Pipeline
import RiscvSoc.Cpu.DecoderFacts
import RiscvSoc.Clocked.Trajectory

set_option autoImplicit false
set_option relaxedAutoImplicit false

namespace RiscvSoc.Cpu.PipelineEdge

open RiscvSoc.Cpu.Decoder
open RiscvSoc.Cpu.Datapath
open RiscvSoc.Cpu.Pipeline
open RiscvSoc.Cpu.DecoderFacts
open RiscvSoc.Clocked.Trajectory

/-- The five edges outside reset, in the order of the priority chains. -/
inductive Edge (s : Core) (i : CoreIn) : Core → Prop where
  | halted (halt : i.halt = true) : Edge s i s
  | waiting (run : i.halt = false) (wait : s.memWait i = true) :
      Edge s i
        { s with
          memWb := {}
          csr := s.memWb.commitCsr s.csr i.timerIrq
          regfile := s.memWb.commitReg s.csr i.timerIrq s.regfile }
  | flushed (run : i.halt = false) (ready : s.memWait i = false)
      (flush : s.exFlush i.timerIrq = true) :
      Edge s i
        { pc := s.nextPc i.timerIrq
          ifId := {}
          idEx := {}
          exMem := s.idEx.toExMem
          memWb := s.exMem.toMemWb i.ldData
          csr := s.nextCsr i
          regfile := s.memWb.commitReg s.csr i.timerIrq s.regfile }
  | stalled (run : i.halt = false) (ready : s.memWait i = false)
      (straight : s.exFlush i.timerIrq = false) (stall : s.frontStall i = true) :
      Edge s i
        { s with
          idEx := {}
          exMem := s.idEx.toExMem
          memWb := s.exMem.toMemWb i.ldData
          csr := s.memWb.commitCsr s.csr i.timerIrq
          regfile := s.memWb.commitReg s.csr i.timerIrq s.regfile }
  | advanced (run : i.halt = false) (ready : s.memWait i = false)
      (straight : s.exFlush i.timerIrq = false) (go : s.frontStall i = false) :
      Edge s i
        { pc := s.pc + 4
          ifId := { instr := i.imemRdata, pc := s.pc, valid := true }
          idEx := s.toIdEx
          exMem := s.idEx.toExMem
          memWb := s.exMem.toMemWb i.ldData
          csr := s.memWb.commitCsr s.csr i.timerIrq
          regfile := s.memWb.commitReg s.csr i.timerIrq s.regfile }

/-- Without a flush EX resolves nothing: no trap, no MRET, no redirect. -/
theorem of_straight {s : Core} {irq : Bool} (straight : s.exFlush irq = false) :
    s.irqTaken irq = false ∧ s.idEx.ctrl.isEcall = false ∧ s.idEx.ctrl.isEbreak = false ∧
      s.idEx.ctrl.isMret = false ∧ s.idEx.takenBr = false ∧ s.idEx.ctrl.op.isJal = false ∧
      s.idEx.ctrl.op.isJalr = false := by
  simp only [Core.exFlush, IdEx.flushBase, IdEx.isPriv, Bool.or_eq_false_iff] at straight
  tauto

theorem flushBase_of_straight {s : Core} {irq : Bool} (straight : s.exFlush irq = false) :
    s.idEx.flushBase = false := by
  rw [Core.exFlush, Bool.or_eq_false_iff] at straight
  exact straight.1

theorem nextPc_straight {s : Core} {irq : Bool} (straight : s.exFlush irq = false) :
    s.nextPc irq = s.pc + 4 := by
  obtain ⟨noIrq, ecall, ebreak, mret, taken, jal, jalr⟩ := of_straight straight
  simp [Core.nextPc, noIrq, ecall, ebreak, mret, taken, jal, jalr]

theorem nextCsr_straight {s : Core} {i : CoreIn} (run : i.halt = false)
    (straight : s.exFlush i.timerIrq = false) :
    s.nextCsr i = s.memWb.commitCsr s.csr i.timerIrq := by
  obtain ⟨noIrq, ecall, ebreak, mret, -⟩ := of_straight straight
  simp [Core.nextCsr, Core.trapEntry, Core.mretCommit, run, noIrq, ecall, ebreak, mret]

theorem posedge_edge (s : Core) (i : CoreIn) (noRst : i.rst = false) :
    Edge s i (s.posedge i) := by
  by_cases halt : i.halt = true
  · have same : s.posedge i = s := by
      ext1 <;> simp [Core.posedge, Core.nextCsr, Core.trapEntry, Core.mretCommit, noRst, halt]
    rw [same]
    exact .halted halt
  rw [Bool.not_eq_true] at halt
  by_cases wait : s.memWait i = true
  · convert Edge.waiting halt wait using 1
    simp [Core.posedge, Core.nextCsr, Core.trapEntry, Core.mretCommit, noRst, halt, wait]
  rw [Bool.not_eq_true] at wait
  by_cases flush : s.exFlush i.timerIrq = true
  · convert Edge.flushed halt wait flush using 1
    simp [Core.posedge, noRst, halt, wait, flush]
  rw [Bool.not_eq_true] at flush
  by_cases stall : s.frontStall i = true
  · convert Edge.stalled halt wait flush stall using 1
    simp [Core.posedge, noRst, halt, wait, flush, stall, nextCsr_straight halt flush]
  · rw [Bool.not_eq_true] at stall
    convert Edge.advanced halt wait flush stall using 1
    simp [Core.posedge, noRst, halt, wait, flush, stall, nextCsr_straight halt flush,
      nextPc_straight flush]

/-- What holds after each of the five edges holds after `posedge`. -/
@[elab_as_elim]
theorem posedge_rule {P : Core → Prop} {s : Core} {i : CoreIn} (noRst : i.rst = false)
    (edges : ∀ t, Edge s i t → P t) : P (s.posedge i) :=
  edges _ (posedge_edge s i noRst)

/-- Empty slots carry no control bit that acts: IF/ID holds the zero word, and ID/EX holds
either a bubble or the decoded zero word, which raises `rd_valid` for x0 and no operation.
Whatever ID/EX holds is a bubble or the decoding of some word. -/
structure Inert (s : Core) : Prop where
  ifId : s.ifId.valid = false → s.ifId = {}
  idEx : s.idEx.valid = false → s.idEx.rd = 0 ∧ s.idEx.pc = 0 ∧
    s.idEx.ctrl = { rdValid := s.idEx.ctrl.rdValid, csrOptype := s.idEx.ctrl.csrOptype }
  decoded : s.idEx.ctrl = {} ∨ ∃ instr, s.idEx.ctrl = Core.idCtrlBus instr

theorem inert_reset (csr : CsrFile) (regfile : RegFile) : Inert (Core.reset csr regfile) :=
  ⟨fun _ => rfl, fun _ => ⟨rfl, rfl, rfl⟩, Or.inl rfl⟩

theorem inert_posedge {s : Core} {i : CoreIn} (inv : Inert s) (noRst : i.rst = false) :
    Inert (s.posedge i) := by
  refine posedge_rule noRst fun t edge => ?_
  cases edge with
  | halted => exact inv
  | waiting => exact ⟨inv.ifId, inv.idEx, inv.decoded⟩
  | flushed => exact ⟨fun _ => rfl, fun _ => ⟨rfl, rfl, rfl⟩, Or.inl rfl⟩
  | stalled => exact ⟨inv.ifId, fun _ => ⟨rfl, rfl, rfl⟩, Or.inl rfl⟩
  | advanced =>
    refine ⟨fun invalid => absurd invalid (by simp), ?_, Or.inr ⟨_, rfl⟩⟩
    intro invalid
    have empty := inv.ifId invalid
    simp only [Core.toIdEx, empty]
    decide

/-- An empty EX slot redirects nothing, writes nothing and touches no memory. -/
theorem Inert.bubble {s : Core} (inv : Inert s) (empty : s.idEx.valid = false) :
    s.idEx.flushBase = false ∧ s.idEx.isPriv = false ∧ s.idEx.wrEn = false ∧
      s.idEx.ctrl.isCsr = false ∧ s.idEx.ctrl.isLoad = false ∧ s.idEx.ctrl.isSInstr = false := by
  obtain ⟨rd, -, ctrl⟩ := inv.idEx empty
  rw [IdEx.flushBase, IdEx.isPriv, IdEx.takenBr, IdEx.wrEn, ctrl, rd]
  exact ⟨rfl, rfl, rfl, rfl, rfl, rfl⟩

/-- A privileged word in EX does nothing else: it neither jumps by itself, nor accesses a CSR,
nor touches memory. -/
theorem Inert.priv {s : Core} (inv : Inert s) (priv : s.idEx.isPriv = true) :
    s.idEx.ctrl.op = {} ∧ s.idEx.ctrl.isCsr = false ∧ s.idEx.ctrl.isLoad = false := by
  rcases inv.decoded with bubble | ⟨instr, decoded⟩
  · rw [IdEx.isPriv, bubble] at priv
    exact absurd priv Bool.false_ne_true
  · simp only [IdEx.isPriv, decoded, Core.idCtrlBus, Bool.or_eq_true] at priv
    have flags := decFlags_of_priv (or_assoc.mp priv)
    rw [decoded]
    refine ⟨?_, isCsr_of_priv (or_assoc.mp priv), ?_⟩
    · rw [Core.idCtrlBus, opFlags, flags]
    · rw [Core.idCtrlBus, isLoad, opFlags, flags]
      rfl

private theorem mret_excludes {instr : Word} (mret : isMret instr = true) :
    isEcall instr = false ∧ isEbreak instr = false := by
  simp only [isMret, Bool.and_eq_true, beq_iff_eq] at mret
  simp [isEcall, isEbreak, mret.2]

theorem Inert.mret {s : Core} (inv : Inert s) (mret : s.idEx.ctrl.isMret = true) :
    s.idEx.ctrl.isEcall = false ∧ s.idEx.ctrl.isEbreak = false := by
  rcases inv.decoded with bubble | ⟨instr, decoded⟩
  · rw [bubble] at mret
    exact absurd mret Bool.false_ne_true
  · rw [decoded] at mret ⊢
    exact mret_excludes mret

/-- Where a trap and a return redirect to. -/
theorem Inert.nextPc_trap {s : Core} (inv : Inert s) (irq : Bool)
    (trap : (s.idEx.ctrl.isEcall || s.idEx.ctrl.isEbreak) = true) : s.nextPc irq = s.csr.mtvec := by
  have priv : s.idEx.isPriv = true := by rw [IdEx.isPriv, trap, Bool.true_or]
  simp [Core.nextPc, Core.irqTaken, priv, IdEx.takenBr, (inv.priv priv).1, takenBr, trap]

theorem Inert.nextPc_mret {s : Core} (inv : Inert s) (irq : Bool)
    (mret : s.idEx.ctrl.isMret = true) : s.nextPc irq = s.csr.mepc := by
  have priv : s.idEx.isPriv = true := by rw [IdEx.isPriv, mret, Bool.or_true]
  simp [Core.nextPc, Core.irqTaken, priv, IdEx.takenBr, (inv.priv priv).1, takenBr, mret,
    inv.mret mret]

theorem Inert.valid_of_flushBase {s : Core} (inv : Inert s) (flush : s.idEx.flushBase = true) :
    s.idEx.valid = true := by
  rw [← Bool.not_eq_false]
  intro empty
  rw [(inv.bubble empty).1] at flush
  exact Bool.false_ne_true flush

/-- A CSR instruction addressing `a` in EX/MEM or MEM/WB. -/
def csrBehindEx (s : Core) (a : CsrAddr) : Bool := s.exMem.writesCsr a || s.memWb.writesCsr a

/-- What `priv_hazard` guarantees: a trap or MRET that has reached EX finds no older write of the
CSR it jumps through behind it. -/
structure PrivReady (s : Core) : Prop where
  trap : s.idEx.ctrl.isEcall = true ∨ s.idEx.ctrl.isEbreak = true → csrBehindEx s aMtvec = false
  mret : s.idEx.ctrl.isMret = true → csrBehindEx s aMepc = false

theorem privReady_reset (csr : CsrFile) (regfile : RegFile) : PrivReady (Core.reset csr regfile) :=
  ⟨fun h => by simp [Core.reset] at h, fun h => by simp [Core.reset] at h⟩

/-- One edge moves EX to MEM and MEM to WB, so what was not in flight does not appear. -/
private theorem csrBehindEx_next {s : Core} {a : CsrAddr} {ldData : Word} {pc : Word} {ifId : IfId}
    {idEx : IdEx} {csr : CsrFile} {regfile : RegFile} (none : s.csrInFlight a = false) :
    csrBehindEx
      { pc, ifId, idEx, exMem := s.idEx.toExMem, memWb := s.exMem.toMemWb ldData, csr, regfile } a =
      false := by
  simp only [Core.csrInFlight, Bool.or_eq_false_iff] at none
  simp only [csrBehindEx, ExMem.writesCsr, MemWb.writesCsr, IdEx.toExMem, ExMem.toMemWb,
    Bool.or_eq_false_iff]
  exact ⟨none.1.1, none.1.2⟩

/-- While MEM waits, WB empties and nothing follows. -/
private theorem csrBehindEx_wait {s : Core} {a : CsrAddr} {csr : CsrFile} {regfile : RegFile}
    (none : csrBehindEx s a = false) :
    csrBehindEx { s with memWb := {}, csr := csr, regfile := regfile } a = false := by
  simp only [csrBehindEx, Bool.or_eq_false_iff] at none ⊢
  exact ⟨none.1, rfl⟩

theorem privReady_posedge {s : Core} {i : CoreIn} (inert : Inert s) (inv : PrivReady s)
    (noRst : i.rst = false) : PrivReady (s.posedge i) := by
  refine posedge_rule noRst fun t edge => ?_
  cases edge with
  | halted => exact inv
  | waiting =>
    constructor
    · intro trap
      exact csrBehindEx_wait (inv.trap trap)
    · intro mret
      exact csrBehindEx_wait (inv.mret mret)
  | flushed => exact ⟨fun h => by simp at h, fun h => by simp at h⟩
  | stalled => exact ⟨fun h => by simp at h, fun h => by simp at h⟩
  | advanced run ready straight go =>
    by_cases valid : s.ifId.valid = true
    · -- ID was not stalled, so the hazard test failed for the CSR this instruction names
      have calm : s.privHazard i.timerIrq = false := by
        simp only [Core.frontStall, Core.idStall, valid, straight, Bool.not_false, Bool.true_and,
          Bool.or_eq_false_iff] at go
        exact go.1.1.1
      constructor
      · intro h
        apply csrBehindEx_next
        have notMret : isMret s.ifId.instr = false := by
          rw [← Bool.not_eq_true]
          intro mret
          have := mret_excludes mret
          simp [Core.toIdEx, Core.idCtrlBus, this] at h
        have priv : (isEcall s.ifId.instr || isEbreak s.ifId.instr || isMret s.ifId.instr ||
            s.irqTaken i.timerIrq) = true := by
          rcases h with h | h <;> simp only [Core.toIdEx, Core.idCtrlBus] at h <;> simp [h]
        rw [Core.privHazard, priv, Bool.true_and, Core.privCsrAddr, notMret] at calm
        exact calm
      · intro mret
        apply csrBehindEx_next
        replace mret : isMret s.ifId.instr = true := mret
        simpa [Core.privHazard, Core.privCsrAddr, mret] using calm
    · rw [Bool.not_eq_true] at valid
      have zero := inert.ifId valid
      constructor
      · intro trap
        simp only [Core.toIdEx, Core.idCtrlBus, zero] at trap
        exact absurd trap (by decide)
      · intro mret
        simp only [Core.toIdEx, Core.idCtrlBus, zero] at mret
        exact absurd mret (by decide)

section Runs

/-- The state of the core `n` clocks after reset. -/
abbrev after (csr : CsrFile) (regfile : RegFile) (input : ℕ → CoreIn) : ℕ → Core :=
  trajectory Core.posedge (Core.reset csr regfile) input

/-- A core that fetches from `imem` without waiting. -/
def fetchFrom (imem : Word → Word) (s : Core) (timerIrq : Bool) : CoreIn where
  imemRdata := imem s.pc
  imemVld := true
  ldData := 0
  dmemVld := true
  timerIrq := timerIrq

/-- The inputs of a whole run of the program in `imem`, with `timer_irq` given clock by clock. -/
def programInput (imem : Word → Word) (timerIrq : ℕ → Bool) (csr : CsrFile) (regfile : RegFile)
    (n : ℕ) : CoreIn :=
  fetchFrom imem
    (trajectory (fun s irq => s.posedge (fetchFrom imem s irq)) (Core.reset csr regfile) timerIrq n)
    (timerIrq n)

theorem invariants_after (csr : CsrFile) (regfile : RegFile) {input : ℕ → CoreIn}
    (noRst : ∀ n, (input n).rst = false) (n : ℕ) :
    Inert (after csr regfile input n) ∧ PrivReady (after csr regfile input n) := by
  apply trajectory_invariant (fun s => Inert s ∧ PrivReady s) fun _ i => i.rst = false
  · exact ⟨inert_reset csr regfile, privReady_reset csr regfile⟩
  · intro t i inv ok
    exact ⟨inert_posedge inv.1 ok, privReady_posedge inv.1 inv.2 ok⟩
  · intro k _
    exact noRst k

end Runs

end RiscvSoc.Cpu.PipelineEdge
