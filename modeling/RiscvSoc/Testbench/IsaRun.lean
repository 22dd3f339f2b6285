/- GID: RiscvSoc/Testbench/IsaRun
   generality: G
   utility: main
   digest: Both cores of the bench run programs as the ISA says. -/

import RiscvSoc.Cpu.IsaStep
import RiscvSoc.Testbench.Throughput

set_option autoImplicit false
set_option relaxedAutoImplicit false

namespace RiscvSoc.Testbench.IsaRun

open RiscvSoc.Clocked.Trajectory
open RiscvSoc.Clocked.Ranking
open RiscvSoc.Cpu.Decoder
open RiscvSoc.Cpu.Datapath
open RiscvSoc.Cpu.SingleCycle
open RiscvSoc.Cpu.Architecture (execute)
open RiscvSoc.Cpu.StageImage
open RiscvSoc.Cpu.IsaStep
open RiscvSoc.Testbench.TbDiff
open RiscvSoc.Testbench.Lockstep
open RiscvSoc.Testbench.Refinement
open RiscvSoc.Testbench.Throughput
open RiscvSoc.Isa.Rv32Instr (decode encoding_of_decode)
open RiscvSoc.Isa.Rv32Hart
open RiscvSoc.Memory.ByteLanes
open RiscvSoc.Memory.ByteMemory

/-- The two memories of the bench, code in words and data in bytes. -/
def benchBus (imem : Memory) : Bus (ByteMem 30) where
  fetch := fun _ a => imem (wordIndex a)
  loaded := fun m o a => m.read a o
  access := fun m a =>
    match a with
    | .load _ _ => m
    | .store o b v => m.write b o v

/-- The architectural machine that a golden model stands for. -/
def machineOf (g : Golden) : Machine CsrFile (ByteMem 30) where
  hart := hartOf g.core
  mem := bytes (n := 30) g.dmem

/-- The ISA's machine after `n` instructions from the same start. -/
abbrev isaAfter (imem : Memory) (start : Start) (n : ℕ) : Option (Machine CsrFile (ByteMem 30)) :=
  (machineOf start.golden).after csrSpace (benchBus imem) n

/-- The next instruction jumps to an odd address. -/
def oddNext (imem : Memory) (s : Machine CsrFile (ByteMem 30)) : Bool :=
  (decode (imem (wordIndex s.hart.pc))).any (oddJump s.hart)

variable {imem : Memory}

private theorem byteIndex_self (a : Word) : byteIndex 30 a = a := BitVec.extractLsb'_eq_self

private theorem golden_access {g : Golden} {w : Word} {a : Option (Access 30)}
    (drives : Drives g.core w a) (aligned : ∀ b ∈ a, b.Aligned) :
    bytes (n := 30) (clockDmem g.dmem (g.core.dataPort w)) =
        (benchBus imem).after (bytes (n := 30) g.dmem) a ∧
      ∀ o b, a = some (.load o b) →
        g.core.wrData w (g.dmem (wordIndex (g.core.dataPort w).addr)) =
          (benchBus imem).result (bytes (n := 30) g.dmem) a := by
  match a, drives with
  | none, idle =>
    refine ⟨?_, fun _ _ none => absurd none (by simp)⟩
    rw [clockDmem, show (g.core.dataPort w).we = false from idle, if_neg Bool.false_ne_true]
    rfl
  | some (.load o b), ⟨we, addr, data⟩ =>
    refine ⟨?_, fun _ _ _ => ?_⟩
    · rw [clockDmem, we, if_neg Bool.false_ne_true]
      rfl
    · have fits : b.toNat % o.size = 0 := aligned _ rfl
      rw [data, addr]
      exact (ldExtracted_bytes (n := 30) g.dmem o fits).trans (by rw [byteIndex_self]; rfl)
  | some (.store o b v), ⟨we, addr, wdata, byteena⟩ =>
    refine ⟨?_, fun _ _ none => absurd none (by simp)⟩
    have fits : b.toNat % o.size = 0 := aligned _ rfl
    rw [clockDmem, we, if_pos rfl, addr, wdata, byteena]
    exact (bytes_store (n := 30) g.dmem o v fits).trans (by rw [byteIndex_self]; rfl)

private theorem golden_step {g : Golden} {t : Machine CsrFile (ByteMem 30)}
    (stepped : (machineOf g).step csrSpace (benchBus imem) = some t)
    (even : oddNext imem (machineOf g) = false) : machineOf (g.posedge imem ()) = t := by
  obtain ⟨i, decoded, aligned, rfl, -⟩ := Machine.step_cases stepped
  have enc := encoding_of_decode decoded
  have straight : oddJump (hartOf g.core) i = false := by
    have here : decode (imem (wordIndex (machineOf g).hart.pc)) = some i := decoded
    rwa [oddNext, here] at even
  obtain ⟨mem, data⟩ := @golden_access imem _ _ _ (drives_access (c := g.core) enc) aligned
  apply Machine.ext
  · change hartOf (g.posedge imem ()).core = _
    rw [Golden.posedge_core]
    exact execute_encoding enc straight data
  · exact mem

/-- As long as the ISA has a next state and no JALR goes to an odd address, the golden model is in
the state the ISA says. -/
theorem golden_runs_isa (imem : Memory) (start : Start) (n : ℕ) (t : Machine CsrFile (ByteMem 30))
    (runs : isaAfter imem start n = some t)
    (even : ∀ k < n, ∀ s, isaAfter imem start k = some s → oddNext imem s = false) :
    machineOf (goldenAfter imem start n) = t := by
  induction n generalizing t with
  | zero => exact Option.some_inj.mp runs
  | succ n ih =>
    obtain ⟨s, before, stepped⟩ := Option.bind_eq_some_iff.mp runs
    have here := ih s before fun k small => even k (by omega)
    have last : goldenAfter imem start (n + 1) = (goldenAfter imem start n).posedge imem () :=
      trajectory_succ _ _ _ n
    rw [last]
    apply golden_step
    · rw [here]
      exact stepped
    · rw [here]
      exact even n (by omega) s before

private theorem storeLoadLoop_even (s : Machine CsrFile (ByteMem 30)) :
    oddNext storeLoadLoop s = false := by
  unfold oddNext storeLoadLoop
  split_ifs <;> rfl

/-- Five instructions, up to the branch to itself. -/
theorem golden_runs_isa_storeLoadLoop :
    ∃ t, isaAfter storeLoadLoop zeroStart 5 = some t ∧ t.hart.pc = 16 ∧
      machineOf (goldenAfter storeLoadLoop zeroStart 5) = t := by
  have runs : (isaAfter storeLoadLoop zeroStart 5).isSome = true := by decide +kernel
  obtain ⟨t, reached⟩ := Option.isSome_iff_exists.mp runs
  have pc : (isaAfter storeLoadLoop zeroStart 5).map (·.hart.pc) = some 16 := by decide +kernel
  rw [reached] at pc
  exact ⟨t, reached, Option.some_inj.mp pc,
    golden_runs_isa storeLoadLoop zeroStart 5 t reached fun _ _ s _ => storeLoadLoop_even s⟩

/-- The pipelined core runs programs as the ISA says: after `n` clocks of any schedule its registers
are those of the ISA after `a` instructions and, once the access in MEM is through, its memory is
that of the ISA a few instructions further on, where every five open clocks count for one. -/
theorem pipeline_runs_isa (imem : Memory) (start : Start) (cycles : ℕ → Cycle)
    (program : TrapFree imem) (n : ℕ)
    (even : ∀ k < n, ∀ s, isaAfter imem start k = some s → oddNext imem s = false) :
    ∃ a c, occurrences (openClock imem start cycles) 0 n < 5 * (a + 1) ∧
      a ≤ c ∧ c ≤ a + 2 ∧ c ≤ n ∧
      (∀ t, isaAfter imem start a = some t →
        archRegs (dutAfter imem start cycles n).core.regfile = t.hart.regs) ∧
      ∀ t, isaAfter imem start c = some t →
        bytes (n := 30) (clockDmem (dutAfter imem start cycles n).dmem
          (dutAfter imem start cycles n).core.dataPort) = t.mem := by
  obtain ⟨inv, fetched, -⟩ := inStep_after start cycles program.accesses n
    fun k _ a inv => program.calm inv (cycles k)
  have pace := @openClocks_le imem start cycles program n
  have left := Cpu.Progress.distance_pos (dutAfter imem start cycles n).core
  set a := retiredAfter imem start cycles n
  set s := dutAfter imem start cycles n
  have inWb := Bool.toNat_le s.core.memWb.valid
  have inMem := Bool.toNat_le s.core.exMem.valid
  have order : a ≤ posEx s.core a ∧ posEx s.core a ≤ a + 2 ∧ posEx s.core a ≤ n := by
    simp only [posIf, posId, posEx, posMem] at fetched ⊢
    omega
  refine ⟨a, posEx s.core a, by omega, order.1, order.2.1, order.2.2, ?_, ?_⟩
  · intro t reached
    have same := golden_runs_isa imem start a t reached fun k small => even k (by omega)
    rw [inv.regfile, ← same]
    rfl
  · intro t reached
    have same := golden_runs_isa imem start _ t reached fun k small => even k (by omega)
    rw [inv.dmem, ← same]
    rfl

/-- Waits, memory waits and halts overlap. -/
theorem pipeline_runs_isa_storeLoadLoop :
    ∃ a c, occurrences (openClock storeLoadLoop zeroStart raggedCycles) 0 30 < 5 * (a + 1) ∧
      a ≤ c ∧ c ≤ a + 2 ∧ c ≤ 30 ∧
      (∀ t, isaAfter storeLoadLoop zeroStart a = some t →
        archRegs (dutAfter storeLoadLoop zeroStart raggedCycles 30).core.regfile = t.hart.regs) ∧
      ∀ t, isaAfter storeLoadLoop zeroStart c = some t →
        bytes (n := 30) (clockDmem (dutAfter storeLoadLoop zeroStart raggedCycles 30).dmem
          (dutAfter storeLoadLoop zeroStart raggedCycles 30).core.dataPort) = t.mem :=
  pipeline_runs_isa storeLoadLoop zeroStart raggedCycles storeLoadLoop_trapFree 30
    fun _ _ s _ => storeLoadLoop_even s

end RiscvSoc.Testbench.IsaRun
