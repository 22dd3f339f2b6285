/- GID: RiscvSoc/Testbench/Refinement
   generality: G
   utility: main
   digest: The commits of the pipeline are prefixes of the commits of the single-cycle core. -/

import RiscvSoc.Testbench.Lockstep

set_option autoImplicit false
set_option relaxedAutoImplicit false

namespace RiscvSoc.Testbench.Refinement

open RiscvSoc.Clocked.Trajectory
open RiscvSoc.Cpu.Decoder
open RiscvSoc.Cpu.Datapath
open RiscvSoc.Cpu.SingleCycle
open RiscvSoc.Cpu.Pipeline
open RiscvSoc.Cpu.PipelineEdge
open RiscvSoc.Cpu.CsrOrder
open RiscvSoc.Cpu.StageImage
open RiscvSoc.Cpu.Commit
open RiscvSoc.Testbench.TbDiff
open RiscvSoc.Testbench.Lockstep

section Edge

variable {imem : Memory} {T : CsrAddr → Prop} {G : ℕ → Golden} {s : Dut} {a : ℕ} {c : Cycle}

/-- What an edge commits is what the golden instructions between the old and the new retired
count commit; there is at most one. -/
private theorem regWrites_golden (inv : InStep imem T G s a) (accesses : Accesses imem T) :
    s.regWrites imem c =
      if !c.halt && s.core.memWb.valid then (G a).regWrites imem () else [] := by
  rw [Dut.regWrites, regWrite]
  cases halt : c.halt with
  | true => simp [Dut.input, halt]
  | false =>
    cases valid : s.core.memWb.valid with
    | false => simp
    | true =>
      have m := inv.inWb valid
      have value := m.wbData (inv.wbRead accesses valid)
      simp only [Dut.input, halt, Bool.not_false, Bool.true_and, Bool.and_true, if_true,
        Golden.regWrites, refRegWrite, m.wrEn, m.rd]
      rw [value]

private theorem csrWrites_golden (inv : InStep imem T G s a) (accesses : Accesses imem T) :
    s.csrWrites imem c =
      if !c.halt && s.core.memWb.valid then (G a).csrWrites imem () else [] := by
  rw [Dut.csrWrites, csrWrite]
  cases halt : c.halt with
  | true => simp [Dut.input, halt]
  | false =>
    cases valid : s.core.memWb.valid with
    | false => simp
    | true =>
      have m := inv.inWb valid
      simp only [Dut.input, halt, Bool.not_false, Bool.true_and, Bool.and_true, if_true,
        Golden.csrWrites, refCsrWrite, m.isCsr]
      split
      · rename_i csr
        rw [m.csrAddr, m.csrNewVal csr (inv.wbRead accesses valid csr)]
      · rfl

private theorem stores_golden (inv : InStep imem T G s a) :
    s.stores imem c =
      if (!c.halt && !s.core.memWait (s.input imem c)) && s.core.exMem.valid then
        (G (posMem s.core a)).stores imem ()
      else [] := by
  rw [Dut.stores, storeLeaving, show (s.input imem c).halt = c.halt from rfl]
  cases !c.halt && !s.core.memWait (s.input imem c) with
  | false => rfl
  | true =>
    cases valid : s.core.exMem.valid with
    | false => simp [Core.dataPort, DataPort.store, ExMem.dataPort, valid]
    | true => exact (inv.inMem valid).store

theorem retired_eq (s : Core) (i : CoreIn) (a : ℕ) :
    retired s i a = a + (!i.halt && s.memWb.valid).toNat := by
  cases halt : i.halt <;> simp [retired, posMem, halt]

/-- One edge fetches at most one instruction. -/
private theorem posIf_posedge (s : Core) (i : CoreIn) (a : ℕ) (noRst : i.rst = false) :
    posIf (s.posedge i) (retired s i a) ≤ posIf s a + 1 := by
  refine posedge_rule noRst fun t edge => ?_
  cases edge <;>
    simp only [posIf, posId, posEx, posMem, retired, IdEx.toExMem, ExMem.toMemWb, Core.toIdEx,
      Bool.toNat_false, Bool.toNat_true, Bool.false_eq_true, if_false, if_true, *] <;>
    omega

private theorem posMem_posedge (s : Core) (i : CoreIn) (a : ℕ) (noRst : i.rst = false) :
    posMem (s.posedge i) (retired s i a) =
      posMem s a + ((!i.halt && !s.memWait i) && s.exMem.valid).toNat := by
  refine posedge_rule noRst fun t edge => ?_
  cases edge <;> simp [posMem, retired, ExMem.toMemWb, *]

end Edge

section Run

variable {imem : Memory} {T : CsrAddr → Prop}

private theorem inStep_start (start : Start) :
    InStep imem T (goldenAfter imem start) start.dut 0 where
  inert := inert_reset _ _
  privReady := privReady_reset _ _
  ordered :=
    ⟨fun _ _ => rfl, fun invalid => absurd invalid Bool.false_ne_true,
      fun invalid => absurd invalid Bool.false_ne_true⟩
  regfile := rfl
  dmem := rfl
  inWb := fun invalid => absurd invalid Bool.false_ne_true
  inMem := fun invalid => absurd invalid Bool.false_ne_true
  inEx := fun invalid => absurd invalid Bool.false_ne_true
  front := fun _ =>
    ⟨fun invalid => absurd invalid Bool.false_ne_true,
      fun invalid => absurd invalid Bool.false_ne_true, rfl⟩

/-- Instructions the core under test has retired in the first `n` clocks. -/
def retiredAfter (imem : Memory) (start : Start) (cycles : ℕ → Cycle) : ℕ → ℕ
  | 0 => 0
  | n + 1 =>
    retired (dutAfter imem start cycles n).core
      ((dutAfter imem start cycles n).input imem (cycles n)) (retiredAfter imem start cycles n)

/-- After any number of clocks the core is in step with the golden run, and what it has
committed is what the golden instructions up to there have committed. -/
theorem inStep_after (start : Start) (cycles : ℕ → Cycle) (accesses : Accesses imem T) (n : ℕ)
    (calm : ∀ k < n, ∀ a, InStep imem T (goldenAfter imem start) (dutAfter imem start cycles k) a →
      trapRace (dutAfter imem start cycles k).core
        ((dutAfter imem start cycles k).input imem (cycles k)) = false) :
    InStep imem T (goldenAfter imem start) (dutAfter imem start cycles n)
        (retiredAfter imem start cycles n) ∧
      posIf (dutAfter imem start cycles n).core (retiredAfter imem start cycles n) ≤ n ∧
      dutRegWrites imem start cycles n =
        goldenRegWrites imem start (retiredAfter imem start cycles n) ∧
      dutCsrWrites imem start cycles n =
        goldenCsrWrites imem start (retiredAfter imem start cycles n) ∧
      dutStores imem start cycles n =
        goldenStores imem start
          (posMem (dutAfter imem start cycles n).core (retiredAfter imem start cycles n)) := by
  have steps : ∀ k, goldenAfter imem start (k + 1) = (goldenAfter imem start k).posedge imem () :=
    fun k => trajectory_succ _ _ _ k
  induction n with
  | zero => exact ⟨inStep_start start, le_refl _, rfl, rfl, rfl⟩
  | succ n ih =>
    obtain ⟨inv, fetched, regs, csrs, stores⟩ := ih fun k hk => calm k (by omega)
    have counted : retiredAfter imem start cycles (n + 1) =
        retired (dutAfter imem start cycles n).core
          ((dutAfter imem start cycles n).input imem (cycles n))
          (retiredAfter imem start cycles n) := rfl
    rw [counted]
    set a := retiredAfter imem start cycles n
    set s := dutAfter imem start cycles n with hs
    have next : dutAfter imem start cycles (n + 1) = s.posedge imem (cycles n) :=
      trajectory_succ _ _ _ n
    refine ⟨next ▸ inStep_posedge steps inv accesses (calm n (by omega) a inv), ?_, ?_, ?_, ?_⟩
    · have := posIf_posedge s.core (s.input imem (cycles n)) a rfl
      rw [next]
      exact this.trans (by omega)
    · calc dutRegWrites imem start cycles (n + 1)
          = dutRegWrites imem start cycles n ++ s.regWrites imem (cycles n) := rfl
        _ = goldenRegWrites imem start a ++ _ := by rw [regs, regWrites_golden inv accesses]
        _ = goldenRegWrites imem start (retired s.core _ a) := by
          rw [retired_eq]
          exact (emitted_toNat _ _ _ _ a _).symm
    · calc dutCsrWrites imem start cycles (n + 1)
          = dutCsrWrites imem start cycles n ++ s.csrWrites imem (cycles n) := rfl
        _ = goldenCsrWrites imem start a ++ _ := by rw [csrs, csrWrites_golden inv accesses]
        _ = goldenCsrWrites imem start (retired s.core _ a) := by
          rw [retired_eq]
          exact (emitted_toNat _ _ _ _ a _).symm
    · calc dutStores imem start cycles (n + 1)
          = dutStores imem start cycles n ++ s.stores imem (cycles n) := rfl
        _ = goldenStores imem start (posMem s.core a) ++ _ := by rw [stores, stores_golden inv]
        _ = goldenStores imem start
              (posMem (s.core.posedge (s.input imem (cycles n))) (retired s.core _ a)) := by
          rw [posMem_posedge _ _ _ rfl]
          exact (emitted_toNat _ _ _ _ _ _).symm

theorem inStep_run (start : Start) (cycles : ℕ → Cycle) (accesses : Accesses imem T) (n : ℕ)
    (calm : ∀ k < n, ∀ a, InStep imem T (goldenAfter imem start) (dutAfter imem start cycles k) a →
      trapRace (dutAfter imem start cycles k).core
        ((dutAfter imem start cycles k).input imem (cycles k)) = false) :
    ∃ a, InStep imem T (goldenAfter imem start) (dutAfter imem start cycles n) a ∧
      posIf (dutAfter imem start cycles n).core a ≤ n ∧
      dutRegWrites imem start cycles n = goldenRegWrites imem start a ∧
      dutCsrWrites imem start cycles n = goldenCsrWrites imem start a ∧
      dutStores imem start cycles n =
        goldenStores imem start (posMem (dutAfter imem start cycles n).core a) :=
  ⟨_, inStep_after start cycles accesses n calm⟩

end Run

section TrapFree

/-- No ECALL, EBREAK or MRET word, and no CSR instruction addressing mip. -/
structure TrapFree (imem : Memory) : Prop where
  priv : ∀ w, isEcall (imem w) = false ∧ isEbreak (imem w) = false ∧ isMret (imem w) = false
  mip : ∀ w, isCsr (imem w) = true → csrAddr (imem w) ≠ aMip

variable {imem : Memory} {start : Start} {cycles : ℕ → Cycle}

theorem TrapFree.accesses (program : TrapFree imem) : Accesses imem (· ≠ aMip) where
  csr := program.mip
  mtvec := by decide
  mepc := by decide
  mip := fun h => h rfl
  mstatus := fun _ => program.priv

/-- Without privileged words nothing traps, so nothing races with a trap. -/
theorem TrapFree.calm (program : TrapFree imem) {T : CsrAddr → Prop} {G : ℕ → Golden}
    {s : Dut} {a : ℕ} (inv : InStep imem T G s a) (c : Cycle) :
    trapRace s.core (s.input imem c) = false := by
  have quiet : s.core.idEx.ctrl.isEcall = false ∧ s.core.idEx.ctrl.isEbreak = false := by
    cases valid : s.core.idEx.valid with
    | false =>
      have priv := (inv.inert.bubble valid).2.1
      rw [IdEx.isPriv, Bool.or_eq_false_iff, Bool.or_eq_false_iff] at priv
      exact priv.1
    | true =>
      have none := program.priv (wordIndex (G (posEx s.core a)).core.pc)
      rw [(inv.inEx valid).ctrl]
      exact ⟨none.1, none.2.1⟩
  simp [trapRace, Core.trapEntry, quiet, Dut.input]

/-- The pipelined core refines the single-cycle core: on every program without traps, under
every schedule of halt and of the two valid strobes, what it has committed after `n` clocks is a
prefix of what the golden model has committed after `n` instructions. -/
theorem pipeline_refines_single_cycle (imem : Memory) (start : Start) (cycles : ℕ → Cycle)
    (program : TrapFree imem) (n : ℕ) :
    dutRegWrites imem start cycles n <+: goldenRegWrites imem start n ∧
    dutCsrWrites imem start cycles n <+: goldenCsrWrites imem start n ∧
    dutStores imem start cycles n <+: goldenStores imem start n := by
  obtain ⟨a, -, fetched, regs, csrs, stores⟩ := inStep_run start cycles
    program.accesses n fun k _ a inv => program.calm inv (cycles k)
  have retiredLe : a ≤ n := by
    simp only [posIf, posId, posEx, posMem] at fetched
    omega
  have leftLe : posMem (dutAfter imem start cycles n).core a ≤ n := by
    simp only [posIf, posId, posEx] at fetched
    omega
  rw [regs, csrs, stores]
  exact ⟨emitted_mono retiredLe, emitted_mono retiredLe, emitted_mono leftLe⟩

/-- `addi x1, x0, 5; sw x1, 0(x0); csrrw x0, mscratch, x1; lw x2, 0(x0); beq x1, x2, .` -/
def storeLoadLoop : Memory := fun w =>
  if w = 0 then 0x00500093 else if w = 1 then 0x00102023 else if w = 2 then 0x34009073
  else if w = 3 then 0x00002103 else 0x00208063

def zeroStart : Start where
  regfile := fun _ => 0
  csr := ⟨0, 0, 0, 0, 0, 0, 0, 0⟩
  dmem := fun _ => 0

def raggedCycles (n : ℕ) : Cycle where
  halt := n % 5 == 3
  imemVld := n % 2 == 0
  dmemVld := n % 3 != 0

theorem storeLoadLoop_trapFree : TrapFree storeLoadLoop where
  priv := by
    intro w
    unfold storeLoadLoop
    split_ifs <;> decide
  mip := by
    intro w
    unfold storeLoadLoop
    split_ifs <;> decide

/-- The refinement on a run in which fetch waits, memory waits and halts overlap. -/
theorem pipeline_refines_single_cycle_storeLoadLoop :
    dutRegWrites storeLoadLoop zeroStart raggedCycles 30 = [(1, 5), (2, 5)] ∧
    dutRegWrites storeLoadLoop zeroStart raggedCycles 30 <+:
      goldenRegWrites storeLoadLoop zeroStart 30 ∧
    dutCsrWrites storeLoadLoop zeroStart raggedCycles 30 <+:
      goldenCsrWrites storeLoadLoop zeroStart 30 ∧
    dutStores storeLoadLoop zeroStart raggedCycles 30 <+:
      goldenStores storeLoadLoop zeroStart 30 :=
  ⟨by decide +kernel,
    pipeline_refines_single_cycle storeLoadLoop zeroStart raggedCycles storeLoadLoop_trapFree 30⟩

end TrapFree

end RiscvSoc.Testbench.Refinement
