/- GID: RiscvSoc/Cpu/InterruptEntry
   generality: G
   utility: main
   digest: What an accepted timer interrupt saves and reads: the resume address and three CSRs. -/

import RiscvSoc.Cpu.CsrOrder

set_option autoImplicit false
set_option relaxedAutoImplicit false

namespace RiscvSoc.Cpu.InterruptEntry

open RiscvSoc.Clocked.Trajectory
open RiscvSoc.Cpu.Decoder
open RiscvSoc.Cpu.Datapath
open RiscvSoc.Cpu.Pipeline
open RiscvSoc.Cpu.PipelineEdge
open RiscvSoc.Cpu.CsrOrder

/-- A timer interrupt is accepted on this edge. -/
def accepted (s : Core) (i : CoreIn) : Bool :=
  !i.halt && !s.memWait i && s.irqTaken i.timerIrq

/-- The address of the oldest instruction that has not yet moved past EX. -/
def oldestPc (s : Core) : Word :=
  if s.idEx.valid then s.idEx.pc else if s.ifId.valid then s.ifId.pc else s.pc

/-- The address of the next instruction of the dynamic stream, followed from edge to edge: the
instruction that leaves EX hands it to its successor, an interrupt to the handler. -/
def streamNext (s : Core) (i : CoreIn) (npc : Word) : Word :=
  if i.halt || s.memWait i then npc
  else if s.irqTaken i.timerIrq then s.csr.mtvec
  else if s.idEx.valid then
    if s.idEx.flushBase then s.nextPc i.timerIrq else s.idEx.pc + 4
  else npc

def streamPc (csr : CsrFile) (regfile : RegFile) (input : ℕ → CoreIn) : ℕ → Word
  | 0 => 0
  | n + 1 => streamNext (after csr regfile input n) (input n) (streamPc csr regfile input n)

/-- The stages before MEM hold consecutive instructions of the stream, from `npc` on; while EX
redirects, those behind it are on the wrong path and do not count. -/
structure FrontInOrder (s : Core) (npc : Word) : Prop where
  idEx : s.idEx.valid = true → s.idEx.pc = npc
  ifId : s.idEx.flushBase = false → s.ifId.valid = true →
    s.ifId.pc = if s.idEx.valid then npc + 4 else npc
  pc : s.idEx.flushBase = false →
    s.pc = (if s.idEx.valid then npc + 4 else npc) + if s.ifId.valid then 4 else 0

private theorem streamNext_straight {s : Core} {i : CoreIn} {npc : Word} (inv : FrontInOrder s npc)
    (run : i.halt = false) (ready : s.memWait i = false)
    (straight : s.exFlush i.timerIrq = false) :
    streamNext s i npc = if s.idEx.valid then npc + 4 else npc := by
  obtain ⟨noIrq, -⟩ := of_straight straight
  have base := flushBase_of_straight straight
  simp only [streamNext, run, ready, noIrq, base, Bool.or_self, Bool.false_eq_true, if_false]
  split
  · rename_i valid
    rw [inv.idEx valid]
  · rfl

private theorem streamNext_flush {s : Core} {i : CoreIn} (npc : Word) (inert : Inert s)
    (run : i.halt = false) (ready : s.memWait i = false)
    (flush : s.exFlush i.timerIrq = true) : streamNext s i npc = s.nextPc i.timerIrq := by
  rw [streamNext, run, ready, Bool.or_self, if_neg Bool.false_ne_true]
  split
  · rename_i irq
    rw [Core.nextPc, if_pos irq]
  · rename_i irq
    rw [Core.exFlush, Bool.eq_false_iff.mpr irq, Bool.or_false] at flush
    rw [inert.valid_of_flushBase flush, if_pos rfl, if_pos flush]

private theorem frontInOrder_posedge {s : Core} {i : CoreIn} {npc : Word} (inert : Inert s)
    (inv : FrontInOrder s npc) (noRst : i.rst = false) :
    FrontInOrder (s.posedge i) (streamNext s i npc) := by
  refine posedge_rule noRst fun t edge => ?_
  cases edge with
  | halted halt =>
    rw [streamNext, halt, Bool.true_or, if_pos rfl]
    exact inv
  | waiting run wait =>
    rw [streamNext, wait, Bool.or_true, if_pos rfl]
    exact ⟨inv.idEx, inv.ifId, inv.pc⟩
  | flushed run ready flush =>
    refine ⟨?_, ?_, ?_⟩
    · intro invalid
      simp at invalid
    · intro _ invalid
      simp at invalid
    · intro _
      simp [streamNext_flush npc inert run ready flush]
  | stalled run ready straight =>
    have base := flushBase_of_straight straight
    rw [streamNext_straight inv run ready straight]
    exact ⟨fun invalid => by simp at invalid, fun _ => inv.ifId base, fun _ => inv.pc base⟩
  | advanced run ready straight =>
    have base := flushBase_of_straight straight
    rw [streamNext_straight inv run ready straight]
    have pc := inv.pc base
    refine ⟨inv.ifId base, ?_, ?_⟩
    · intro _ _
      change s.pc = if s.ifId.valid then _ else _
      rw [pc]
      cases s.ifId.valid <;> simp
    · intro _
      change s.pc + 4 = (if s.ifId.valid then _ else _) + 4
      rw [pc]
      cases s.ifId.valid <;> simp

section Runs

variable {csr : CsrFile} {regfile : RegFile} {input : ℕ → CoreIn}

private theorem frontInOrder_after (csr : CsrFile) (regfile : RegFile) {input : ℕ → CoreIn}
    (noRst : ∀ n, (input n).rst = false) (n : ℕ) :
    FrontInOrder (after csr regfile input n) (streamPc csr regfile input n) := by
  induction n with
  | zero =>
    exact ⟨fun invalid => absurd invalid Bool.false_ne_true,
      fun _ invalid => absurd invalid Bool.false_ne_true, fun _ => rfl⟩
  | succ n ih => exact frontInOrder_posedge (invariants_after csr regfile noRst n).1 ih (noRst n)

/-- The oldest instruction not past EX is the next of the dynamic stream. -/
theorem oldestPc_after (noRst : ∀ n, (input n).rst = false) (n : ℕ) :
    oldestPc (after csr regfile input n) = streamPc csr regfile input n := by
  have inv := frontInOrder_after csr regfile noRst n
  have inert := (invariants_after csr regfile noRst n).1
  rw [oldestPc]
  cases valid : (after csr regfile input n).idEx.valid with
  | true => exact inv.idEx valid
  | false =>
    have base := (inert.bubble valid).1
    have pc := inv.pc base
    have ifId := inv.ifId base
    rw [valid] at pc ifId
    cases held : (after csr regfile input n).ifId.valid with
    | true => exact ifId held
    | false => simpa [held] using pc

end Runs

/-- An accepted interrupt saves whatever pc ID/EX holds. -/
theorem mepc_of_accepted {s : Core} {i : CoreIn} (taken : accepted s i = true) :
    (s.posedge i).csr.mepc = s.idEx.pc := by
  simp only [accepted, Bool.and_eq_true, Bool.not_eq_true'] at taken
  simp [Core.posedge, Core.nextCsr, Core.trapEntry, taken]

/-- The saved address is that of the next instruction of the interrupted program's stream if and
only if EX holds an instruction, a bubble's pc being zero. -/
theorem interrupt_saves_next_pc_iff (csr : CsrFile) (regfile : RegFile) (input : ℕ → CoreIn)
    (noRst : ∀ n, (input n).rst = false) (n : ℕ)
    (taken : accepted (after csr regfile input n) (input n) = true) :
    oldestPc (after csr regfile input n) = streamPc csr regfile input n ∧
    ((after csr regfile input (n + 1)).csr.mepc = oldestPc (after csr regfile input n) ↔
      (after csr regfile input n).idEx.valid = true ∨
        oldestPc (after csr regfile input n) = 0) := by
  refine ⟨oldestPc_after noRst n, ?_⟩
  have inert := (invariants_after csr regfile noRst n).1
  have saved : (after csr regfile input (n + 1)).csr.mepc = (after csr regfile input n).idEx.pc :=
    mepc_of_accepted taken
  rw [saved]
  cases valid : (after csr regfile input n).idEx.valid with
  | true => simp [oldestPc, valid]
  | false =>
    rw [(inert.idEx valid).2.1]
    constructor
    · intro zero
      exact Or.inr zero.symm
    · intro either
      exact (either.resolve_left Bool.false_ne_true).symm

/-- Machine-timer interrupts on, the handler at 0x40. -/
def enabledCsr : CsrFile where
  mstatus := 0x8
  mie := 0x80
  mtvec := 0x40
  mscratch := 0
  mepc := 0
  mcause := 0
  mtval := 0
  mip := 0

/-- `addi x1, x0, 1; addi x2, x1, 1`, then `addi x0, x0, 0` everywhere. -/
def rawPair : Word → Word := fun pc =>
  if pc = 0 then 0x00100093 else if pc = 4 then 0x00108113 else 0x00000013

/-- The run of `rawPair` with `timer_irq` high at clock `k` only. -/
def rawPairInput (k : ℕ) : ℕ → CoreIn :=
  programInput rawPair (fun n => n == k) enabledCsr fun _ => 0

/-- While the second instruction waits in ID for x1, the interrupt saves the bubble's zero and the
program would start over. -/
theorem interrupt_saves_bubble_pc :
    accepted (after enabledCsr (fun _ => 0) (rawPairInput 3) 3) (rawPairInput 3 3) = true ∧
    (after enabledCsr (fun _ => 0) (rawPairInput 3) 4).csr.mepc = 0 ∧
    oldestPc (after enabledCsr (fun _ => 0) (rawPairInput 3) 3) = 4 := by
  decide +kernel

/-- One clock earlier the first instruction is in EX, and its address is saved. -/
theorem interrupt_saves_next_pc_rawPair :
    (after enabledCsr (fun _ => 0) (rawPairInput 2) 3).csr.mepc =
      oldestPc (after enabledCsr (fun _ => 0) (rawPairInput 2) 2) :=
  ((interrupt_saves_next_pc_iff _ _ (rawPairInput 2) (fun _ => rfl) 2 (by decide +kernel)).2).2
    (Or.inl (by decide +kernel))

/-- The edge goes to the handler that mtvec names, and MTIE and MIE let it, as the instructions in
MEM and WB leave these CSRs: they are the ones older than the instruction the handler returns to. -/
structure OnCurrentCsrs (s : Core) (i : CoreIn) : Prop where
  mtvec : (s.posedge i).pc = (settled s i.timerIrq).mtvec
  mtie : (settled s i.timerIrq).mie.getLsbD 7 = true
  mie : (settled s i.timerIrq).mstatus.getLsbD 3 = true

/-- A CSR instruction in EX/MEM or MEM/WB can change `a`. -/
def altersBehindEx (s : Core) (a : CsrAddr) : Bool :=
  (s.exMem.toMemWb 0).altersCsr a || s.memWb.altersCsr a

theorem settled_read_unaltered {s : Core} {a : CsrAddr} (irq : Bool) (notMip : a ≠ aMip)
    (quiet : altersBehindEx s a = false) : (settled s irq).read a = s.csr.read a := by
  rw [altersBehindEx, Bool.or_eq_false_iff] at quiet
  rw [settled, commitCsr_read_unaltered notMip quiet.1, settledWb,
    commitCsr_read_unaltered notMip quiet.2]

private theorem pc_of_accepted {s : Core} {i : CoreIn} (go : i.rst = false)
    (taken : accepted s i = true) :
    (s.posedge i).pc = s.csr.mtvec := by
  simp only [accepted, Bool.and_eq_true, Bool.not_eq_true'] at taken
  obtain ⟨⟨run, ready⟩, irq⟩ := taken
  have flush : s.exFlush i.timerIrq = true := by rw [Core.exFlush, irq, Bool.or_true]
  simp only [Core.posedge, go, run, ready, flush, Core.nextPc, irq, Bool.false_eq_true, if_false,
    if_true]

theorem enables_of_accepted {s : Core} {i : CoreIn} (taken : accepted s i = true) :
    s.csr.mie.getLsbD 7 = true ∧ s.csr.mstatus.getLsbD 3 = true := by
  simp only [accepted, Core.irqTaken, Bool.and_eq_true] at taken
  exact ⟨taken.2.1.1.2, taken.2.1.1.1⟩

/-- In every run, an interrupt that finds no change of mtvec, mie or mstatus behind EX goes by
up-to-date CSRs. -/
theorem interrupt_reads_current_csrs (csr : CsrFile) (regfile : RegFile) (input : ℕ → CoreIn)
    (n : ℕ) (go : (input n).rst = false)
    (taken : accepted (after csr regfile input n) (input n) = true)
    (mtvec : altersBehindEx (after csr regfile input n) aMtvec = false)
    (mie : altersBehindEx (after csr regfile input n) aMie = false)
    (mstatus : altersBehindEx (after csr regfile input n) aMstatus = false) :
    OnCurrentCsrs (after csr regfile input n) (input n) := by
  have readMtvec := settled_read_unaltered (input n).timerIrq (by decide) mtvec
  have readMie := settled_read_unaltered (input n).timerIrq (by decide) mie
  have readMstatus := settled_read_unaltered (input n).timerIrq (by decide) mstatus
  obtain ⟨mtie, enabled⟩ := enables_of_accepted taken
  constructor
  · rw [pc_of_accepted go taken]
    exact readMtvec.symm
  · exact (congrArg (·.getLsbD 7) readMie).trans mtie
  · exact (congrArg (·.getLsbD 3) readMstatus).trans enabled

/-- `csrrw x0, mtvec, x2`, then `addi x0, x0, 0` everywhere. -/
def moveMtvec : Word → Word := fun pc => if pc = 0 then 0x30511073 else 0x00000013

def moveMtvecInput (k : ℕ) : ℕ → CoreIn :=
  programInput moveMtvec (fun n => n == k) enabledCsr fun _ => 0x80

/-- With the write of mtvec in MEM, the interrupt still goes to the old handler. Its hazard term
sees the write, and the stall it asks for is masked. -/
theorem interrupt_reads_stale_mtvec :
    accepted (after enabledCsr (fun _ => 0x80) (moveMtvecInput 3) 3) (moveMtvecInput 3 3) = true ∧
    (after enabledCsr (fun _ => 0x80) (moveMtvecInput 3) 3).privHazard true = true ∧
    (after enabledCsr (fun _ => 0x80) (moveMtvecInput 3) 3).idStall true = false ∧
    (after enabledCsr (fun _ => 0x80) (moveMtvecInput 3) 4).pc = 0x40 ∧
    ¬ OnCurrentCsrs (after enabledCsr (fun _ => 0x80) (moveMtvecInput 3) 3)
      (moveMtvecInput 3 3) := by
  refine ⟨by decide +kernel, by decide +kernel, by decide +kernel, by decide +kernel, ?_⟩
  intro current
  exact absurd current.mtvec (by decide +kernel)

/-- Two clocks later it has landed. -/
theorem interrupt_reads_current_csrs_moveMtvec :
    OnCurrentCsrs (after enabledCsr (fun _ => 0x80) (moveMtvecInput 5) 5) (moveMtvecInput 5 5) :=
  interrupt_reads_current_csrs _ _ (moveMtvecInput 5) 5 rfl (by decide +kernel) (by decide +kernel)
    (by decide +kernel) (by decide +kernel)

end RiscvSoc.Cpu.InterruptEntry
