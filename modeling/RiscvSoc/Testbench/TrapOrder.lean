/- GID: RiscvSoc/Testbench/TrapOrder
   generality: G
   utility: main
   digest: CSR instructions and traps keep program order when no trap races with a CSR write. -/

import RiscvSoc.Testbench.Refinement

set_option autoImplicit false
set_option relaxedAutoImplicit false

namespace RiscvSoc.Testbench.TrapOrder

open RiscvSoc.Clocked.Trajectory
open RiscvSoc.Cpu.Decoder
open RiscvSoc.Cpu.Datapath
open RiscvSoc.Cpu.SingleCycle
open RiscvSoc.Cpu.Pipeline
open RiscvSoc.Cpu.PipelineEdge
open RiscvSoc.Cpu.CsrOrder
open RiscvSoc.Testbench.TbDiff
open RiscvSoc.Testbench.Lockstep
open RiscvSoc.Testbench.Refinement

/-- How far the golden run has to be followed for the value of CSR `b`: up to the oldest
instruction behind EX that still has to write it, and past EX if there is none. -/
def csrPos (s : Core) (a : ℕ) (b : CsrAddr) : ℕ :=
  if s.memWb.writesCsr b then a else if s.exMem.writesCsr b then posMem s a else posEx s a

private theorem csr_golden {imem : Memory} {T : CsrAddr → Prop} {G : ℕ → Golden} {s : Dut} {a : ℕ}
    {b : CsrAddr} (inv : InStep imem T G s a) (tracked : T b) :
    s.core.csr.read b = (G (csrPos s.core a b)).core.csr.read b := by
  rw [csrPos]
  cases wb : s.core.memWb.writesCsr b with
  | true =>
    simp only [MemWb.writesCsr, Bool.and_eq_true, beq_iff_eq] at wb
    obtain ⟨⟨valid, csr⟩, rfl⟩ := wb
    rw [if_pos rfl, ← inv.ordered.wb valid csr tracked, (inv.inWb valid).csrAddr]
    rfl
  | false =>
    have untouched : (settledWb s.core false).read b = s.core.csr.read b := commitCsr_read_other wb
    rw [if_neg Bool.false_ne_true]
    cases mem : s.core.exMem.writesCsr b with
    | true =>
      simp only [ExMem.writesCsr, Bool.and_eq_true, beq_iff_eq] at mem
      obtain ⟨⟨valid, csr⟩, rfl⟩ := mem
      rw [if_pos rfl, ← untouched, ← inv.ordered.mem valid csr tracked, (inv.inMem valid).csrAddr]
      rfl
    | false =>
      rw [if_neg Bool.false_ne_true, ← untouched, ← settled_read_mem mem]
      exact inv.ordered.arch b tracked

/-- The programs that access neither mstatus nor mip. -/
def AccessesHazarded (imem : Memory) : Prop :=
  ∀ w, isCsr (imem w) = true → Hazarded (csrAddr (imem w))

private theorem AccessesHazarded.accesses {imem : Memory} (program : AccessesHazarded imem) :
    Accesses imem Hazarded where
  csr := program
  mtvec := ⟨by decide, by decide⟩
  mepc := ⟨by decide, by decide⟩
  mip := fun h => h.2 rfl
  mstatus := fun h => absurd rfl h.1

/-- The inputs the core under test sees in a differential run. -/
def benchInput (imem : Memory) (start : Start) (cycles : ℕ → Cycle) (k : ℕ) : CoreIn :=
  (dutAfter imem start cycles k).input imem (cycles k)

private theorem after_benchInput (imem : Memory) (start : Start) (cycles : ℕ → Cycle) (n : ℕ) :
    after start.csr start.regfile (benchInput imem start cycles) n =
      (dutAfter imem start cycles n).core := by
  induction n with
  | zero => rfl
  | succ n ih => exact congrArg (fun s => s.posedge (benchInput imem start cycles n)) ih

/-- The pipeline agrees with the golden model after `n` clocks, of which `a` instructions have
retired: the same register and CSR writes, and every CSR as of the instructions that have
written it. -/
structure AgreesAfter (imem : Memory) (start : Start) (cycles : ℕ → Cycle) (n a : ℕ) : Prop where
  regWrites : dutRegWrites imem start cycles n = goldenRegWrites imem start a
  csrWrites : dutCsrWrites imem start cycles n = goldenCsrWrites imem start a
  csr : ∀ b, Hazarded b →
    (dutAfter imem start cycles n).core.csr.read b =
      (goldenAfter imem start
        (csrPos (dutAfter imem start cycles n).core a b)).core.csr.read b

/-- In every run without the race, whatever the memories return and whenever the core waits or
halts, CSR instructions and traps take effect in program order. If the run is that of the
differential bench on a program that accesses neither mstatus nor mip, the committed writes and
the CSR file are those of the single-cycle core. -/
theorem csr_and_traps_in_program_order (start : Start) (input : ℕ → CoreIn)
    (quiet : ∀ n, (input n).rst = false ∧ (input n).timerIrq = false) (n : ℕ)
    (calm : ∀ k < n, trapRace (after start.csr start.regfile input k) (input k) = false) :
    InProgramOrder (after start.csr start.regfile input n) (input n)
      (inOrderAfter start.csr start.regfile input n) ∧
    ∀ (imem : Memory) (cycles : ℕ → Cycle), AccessesHazarded imem →
      input = benchInput imem start cycles → ∃ a ≤ n, AgreesAfter imem start cycles n a := by
  refine ⟨inProgramOrder_after quiet n calm, ?_⟩
  rintro imem cycles program rfl
  have noRace : ∀ k < n, trapRace (dutAfter imem start cycles k).core
      (benchInput imem start cycles k) = false := by
    intro k before
    have free := calm k before
    rwa [after_benchInput] at free
  obtain ⟨a, inv, fetched, regs, csrs, -⟩ :=
    inStep_run start cycles program.accesses n fun k before _ _ => noRace k before
  refine ⟨a, ?_, regs, csrs, fun b hazarded => csr_golden inv hazarded⟩
  simp only [posIf, posId, posEx, posMem] at fetched
  omega

/-- `csrrw x1, mepc, x2` with `gap` clocks of `addi x0, x0, 0` before `ecall`; the handler at
0x40 is `csrrs x3, mepc, x0` and a jump to itself. -/
def mepcThenEcall (gap : Bool) : Memory := fun w =>
  if w = 0 then 0x341110f3
  else if w = 1 then (if gap then 0x00000013 else 0x00000073)
  else if w = 2 then 0x00000073
  else if w = 16 then 0x341021f3
  else 0x0000006f

def handlerStart : Start where
  regfile := fun r => if r = 2 then 0x80 else 0
  csr := { mstatus := 0, mie := 0, mtvec := 0x40, mscratch := 0, mepc := 0x20, mcause := 0,
           mtval := 0, mip := 0 }
  dmem := fun _ => 0

private theorem mepcThenEcall_accesses (gap : Bool) : AccessesHazarded (mepcThenEcall gap) := by
  intro w
  unfold mepcThenEcall Hazarded
  cases gap <;> split_ifs <;> decide

def freeCycles (_ : ℕ) : Cycle := {}

/-- Back to back, `csrrw` reads the address the trap saves, and its own write of mepc lands on top
of it: the handler finds x2 there. -/
theorem csr_and_traps_out_of_order :
    AccessesHazarded (mepcThenEcall false) ∧
    (¬ ∃ a ≤ 14, AgreesAfter (mepcThenEcall false) handlerStart freeCycles 14 a) ∧
    dutRegWrites (mepcThenEcall false) handlerStart freeCycles 14 = [(1, 4), (3, 0x80)] ∧
    goldenRegWrites (mepcThenEcall false) handlerStart 14 = [(1, 0x20), (3, 4)] := by
  refine ⟨mepcThenEcall_accesses false, ?_, by decide +kernel, by decide +kernel⟩
  rintro ⟨a, le, agrees⟩
  have differ : ∀ a ≤ 14, dutRegWrites (mepcThenEcall false) handlerStart freeCycles 14 ≠
      goldenRegWrites (mepcThenEcall false) handlerStart a := by decide +kernel
  exact differ a le agrees.regWrites

/-- One instruction between the two is enough. -/
theorem csr_and_traps_in_program_order_gap :
    dutRegWrites (mepcThenEcall true) handlerStart freeCycles 14 = [(1, 0x20), (3, 8)] ∧
    ∃ a ≤ 14, AgreesAfter (mepcThenEcall true) handlerStart freeCycles 14 a :=
  ⟨by decide +kernel,
    (csr_and_traps_in_program_order handlerStart
      (benchInput (mepcThenEcall true) handlerStart freeCycles) (fun _ => ⟨rfl, rfl⟩) 14
      (by decide +kernel)).2 _ freeCycles (mepcThenEcall_accesses true) rfl⟩

end RiscvSoc.Testbench.TrapOrder
