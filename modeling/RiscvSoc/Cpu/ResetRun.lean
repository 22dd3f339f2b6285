/- GID: RiscvSoc/Cpu/ResetRun
   generality: G
   utility: main
   digest: A reset in the middle of a run: what it clears, and the interrupts it leaves enabled. -/

import RiscvSoc.Cpu.Fetched

set_option autoImplicit false
set_option relaxedAutoImplicit false

namespace RiscvSoc.Cpu.ResetRun

open RiscvSoc.Clocked.Trajectory
open RiscvSoc.Cpu.Decoder
open RiscvSoc.Cpu.Datapath
open RiscvSoc.Cpu.Pipeline
open RiscvSoc.Cpu.PipelineEdge
open RiscvSoc.Cpu.CsrOrder
open RiscvSoc.Cpu.InterruptEntry
open RiscvSoc.Cpu.TrapWindow
open RiscvSoc.Cpu.Fetched

variable {s t : Core} {i : CoreIn} {input : ℕ → CoreIn}

/-- The reset edge starts over at pc 0 with an empty pipeline. The CSRs and the registers take
the commit of this edge as on any other. -/
private theorem posedge_reset (s : Core) (rst : i.rst = true) :
    s.posedge i = Core.reset (s.nextCsr i)
      (if i.halt then s.regfile else s.memWb.commitReg s.csr i.timerIrq s.regfile) := by
  simp [Core.posedge, Core.reset, rst]

/-- Out of reset, and no instruction that commits alters a CSR or is an MRET. -/
structure Unaltered (t : Core) (input : ℕ → CoreIn) : Prop where
  go : ∀ n, (input n).rst = false
  csr : ∀ n, (input n).halt = false → ∀ a, (core t input n).memWb.altersCsr a = false
  mret : ∀ n, (core t input n).mretCommit (input n) = false

/-- No interrupt is accepted before the program asks for interrupts. -/
def Masked (t : Core) : Prop :=
  ∀ input, Unaltered t input → ∀ n, accepted (core t input n) (input n) = false

def irqEnabled (c : CsrFile) : Bool := c.mstatus.getLsbD 3 && c.mie.getLsbD 7

private theorem accepted_enabled (taken : accepted s i = true) : irqEnabled s.csr = true := by
  simp only [accepted, Core.irqTaken, Bool.and_eq_true] at taken
  simp only [irqEnabled, taken.2.1.1, Bool.and_self]

private theorem mie_posedge (quiet : i.halt = false → s.memWb.altersCsr aMie = false) :
    (s.posedge i).csr.mie = s.csr.mie := by
  have base : (if i.halt then s.csr else s.memWb.commitCsr s.csr i.timerIrq).mie = s.csr.mie := by
    split
    · rfl
    · rename_i run
      exact commitCsr_read_unaltered (b := aMie) (by decide) (quiet (Bool.eq_false_iff.mpr run))
  simp only [Core.posedge, Core.nextCsr]
  split
  · exact base
  split
  · exact base
  · exact base

private theorem irqEnabled_posedge (off : irqEnabled s.csr = false)
    (quiet : i.halt = false → ∀ a, s.memWb.altersCsr a = false)
    (noMret : s.mretCommit i = false) : irqEnabled (s.posedge i).csr = false := by
  have mie := mie_posedge fun run => quiet run aMie
  have mstatus := mstatus_posedge fun run => quiet run aMstatus
  rw [noMret, if_neg Bool.false_ne_true] at mstatus
  rw [irqEnabled, mie, mstatus]
  split
  · rw [stackMie_mie, Bool.false_and]
  · exact off

private theorem masked_of_disabled (off : irqEnabled t.csr = false) : Masked t := by
  intro input unaltered n
  have stays : irqEnabled (core t input n).csr = false := by
    induction n with
    | zero => exact off
    | succ n ih => exact irqEnabled_posedge ih (unaltered.csr n) (unaltered.mret n)
  apply Bool.eq_false_iff.mpr
  intro taken
  rw [accepted_enabled taken] at stays
  cases stays

section Idle

def starved : CoreIn where
  imemRdata := 0
  imemVld := false
  ldData := 0
  dmemVld := false
  timerIrq := true

/-- Nothing is in the pipeline, ID included. -/
structure Empty (s : Core) : Prop where
  drained : Drained s
  ifId : s.ifId.valid = false

private theorem empty_reset (csr : CsrFile) (regfile : RegFile) : Empty (Core.reset csr regfile) :=
  ⟨⟨inert_reset csr regfile, rfl, rfl, rfl⟩, rfl⟩

private theorem empty_starved (empty : Empty s) : Empty (s.posedge starved) := by
  cases trap : pends s starved.timerIrq with
  | true =>
    have moved := empty.drained.posedge_trap rfl rfl trap
    exact ⟨moved.1, moved.2.1⟩
  | false =>
    have moved := empty.drained.posedge_stall {} rfl rfl trap rfl
    exact ⟨moved.1, by rw [moved.2.2.1, empty.ifId]⟩

private theorem unaltered_starved (empty : Empty t) : Unaltered t fun _ => starved := by
  have stays : ∀ n, Empty (core t (fun _ => starved) n) := by
    intro n
    induction n with
    | zero => exact empty
    | succ n ih => exact empty_starved ih
  refine ⟨fun _ => rfl, fun n _ a => ?_, fun n => ?_⟩
  · rw [MemWb.altersCsr, MemWb.writesCsr, (stays n).drained.memWb]
    rfl
  · obtain ⟨-, priv, -⟩ := (stays n).drained.inert.bubble (stays n).drained.idEx
    simp only [IdEx.isPriv, Bool.or_eq_false_iff] at priv
    rw [Core.mretCommit, priv.2, Bool.and_false]

private theorem not_masked_of_enabled (empty : Empty t) (on : irqEnabled t.csr = true) :
    ¬ Masked t := by
  intro masked
  have refused := masked _ (unaltered_starved empty) 0
  have pending : pends t starved.timerIrq = true := by
    rw [irqEnabled] at on
    rw [pends, on]
    rfl
  have taken : accepted t starved = true := by
    rw [accepted, empty.drained.irqTaken, pending, empty.drained.memWait]
    rfl
  exact absurd (taken.symm.trans refused) (by decide)

end Idle

/-- After a reset no interrupt is accepted before the program turns interrupts on exactly when
MIE and MTIE are not both set in the CSRs as the reset edge leaves them: reset itself masks
nothing. -/
theorem reset_masks_iff (s : Core) (i : CoreIn) (rst : i.rst = true) :
    Masked (s.posedge i) ↔
      ¬ ((s.nextCsr i).mstatus.getLsbD 3 = true ∧ (s.nextCsr i).mie.getLsbD 7 = true) := by
  rw [posedge_reset s rst]
  constructor
  · rintro masked ⟨mie, mtie⟩
    refine not_masked_of_enabled (empty_reset _ _) ?_ masked
    rw [irqEnabled, Core.reset, mie, mtie]
    rfl
  · intro off
    refine masked_of_disabled (Bool.eq_false_iff.mpr fun on => off ?_)
    simpa only [irqEnabled, Core.reset, Bool.and_eq_true] using on

def resetEdge : CoreIn := { starved with rst := true, timerIrq := false }

def zeroCsr : CsrFile where
  mstatus := 0
  mie := 0
  mtvec := 0
  mscratch := 0
  mepc := 0
  mcause := 0
  mtval := 0
  mip := 0

/-- `addi x1, x0, 128; csrrw x0, mie, x1; csrrsi x0, mstatus, 8`, then `addi x0, x0, 0`. -/
def enableTimer : Word → Word := fun pc =>
  if pc = 0 then 0x08000093 else if pc = 4 then 0x30409073
  else if pc = 8 then 0x30046073 else 0x00000013

def enableTimerInput : ℕ → CoreIn :=
  programInput enableTimer (fun _ => false) zeroCsr fun _ => 0

/-- The reset edge commits the write of mie in WB and takes away that of mstatus in MEM. -/
theorem reset_masks_running :
    ((after zeroCsr (fun _ => 0) enableTimerInput 8).posedge resetEdge).csr.mie = 0x80 ∧
    Masked ((after zeroCsr (fun _ => 0) enableTimerInput 8).posedge resetEdge) :=
  ⟨by decide +kernel, (reset_masks_iff _ resetEdge rfl).mpr (by decide +kernel)⟩

/-- The program has enabled the timer interrupt when it is reset, and the next program is
interrupted at once. -/
theorem reset_unmasked :
    ¬ Masked ((after zeroCsr (fun _ => 0) enableTimerInput 12).posedge resetEdge) := by
  rw [posedge_reset _ rfl]
  exact not_masked_of_enabled (empty_reset _ _) (by decide +kernel)

end RiscvSoc.Cpu.ResetRun
