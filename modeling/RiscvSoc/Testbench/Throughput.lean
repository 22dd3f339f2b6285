/- GID: RiscvSoc/Testbench/Throughput
   generality: G
   utility: main
   digest: How far the pipeline has come along the golden run after a given number of clocks. -/

import RiscvSoc.Cpu.Progress
import RiscvSoc.Testbench.Refinement

set_option autoImplicit false
set_option relaxedAutoImplicit false

namespace RiscvSoc.Testbench.Throughput

open RiscvSoc.Clocked.Trajectory
open RiscvSoc.Clocked.Ranking
open RiscvSoc.Cpu.Decoder
open RiscvSoc.Cpu.Datapath
open RiscvSoc.Cpu.Pipeline
open RiscvSoc.Cpu.PipelineEdge
open RiscvSoc.Cpu.CsrOrder
open RiscvSoc.Cpu.StageImage
open RiscvSoc.Cpu.Progress
open RiscvSoc.Testbench.TbDiff
open RiscvSoc.Testbench.Lockstep
open RiscvSoc.Testbench.Refinement

variable {imem : Memory} {start : Start} {cycles : ℕ → Cycle}

/-- Nothing outside holds the core back in the clock: no halt, the fetch answered, and no load or
store waiting for its strobe. -/
def openClock (imem : Memory) (start : Start) (cycles : ℕ → Cycle) (k : ℕ) : Bool :=
  served (dutAfter imem start cycles k).core
    ((dutAfter imem start cycles k).input imem (cycles k))

private theorem retiredAfter_succ (n : ℕ) :
    retiredAfter imem start cycles (n + 1) = retiredAfter imem start cycles n +
      (retires (dutAfter imem start cycles n).core
        ((dutAfter imem start cycles n).input imem (cycles n))).toNat :=
  retired_eq _ _ _

/-- Every five open clocks retire an instruction; the four stages behind WB start empty. -/
theorem openClocks_le (program : TrapFree imem) (n : ℕ) :
    occurrences (openClock imem start cycles) 0 n +
        distance (dutAfter imem start cycles n).core ≤
      5 * retiredAfter imem start cycles n + 5 := by
  have paid := @occurrences_add_rank_le_credit
    (fun k => distance (dutAfter imem start cycles k).core) 0 n (openClock imem start cycles)
    (fun k => 5 * retiredAfter imem start cycles k) (Nat.zero_le n) ?_
  · have first : distance (dutAfter imem start cycles 0).core = 5 := rfl
    have none : retiredAfter imem start cycles 0 = 0 := rfl
    simp only [first, none] at paid
    omega
  · intro k _ _
    have inert : Inert (dutAfter imem start cycles k).core :=
      (inStep_after start cycles program.accesses k
        fun j _ a inv => program.calm inv (cycles j)).1.inert
    have step := distance_step (i := (dutAfter imem start cycles k).input imem (cycles k))
      inert rfl rfl
    have next : (dutAfter imem start cycles (k + 1)).core =
        (dutAfter imem start cycles k).core.posedge
          ((dutAfter imem start cycles k).input imem (cycles k)) := by
      rw [dutAfter, trajectory_succ]
      rfl
    simp only [next, retiredAfter_succ]
    rw [openClock]
    omega

/-- On every program without traps, under every schedule, the registers, the commits and the stores
of the pipelined core after `n` clocks are those of the golden model after some number of
instructions, and five open clocks are enough for each further instruction. -/
theorem pipeline_keeps_pace (imem : Memory) (start : Start) (cycles : ℕ → Cycle)
    (program : TrapFree imem) (n : ℕ) :
    ∃ a b, occurrences (openClock imem start cycles) 0 n < 5 * (a + 1) ∧
      a ≤ b ∧ b ≤ a + 1 ∧ b ≤ n ∧
      (dutAfter imem start cycles n).core.regfile = (goldenAfter imem start a).core.regfile ∧
      dutRegWrites imem start cycles n = goldenRegWrites imem start a ∧
      dutCsrWrites imem start cycles n = goldenCsrWrites imem start a ∧
      dutStores imem start cycles n = goldenStores imem start b := by
  obtain ⟨inv, fetched, regs, csrs, stores⟩ := inStep_after start cycles program.accesses n
    fun k _ a inv => program.calm inv (cycles k)
  have pace := @openClocks_le imem start cycles program n
  have left := distance_pos (dutAfter imem start cycles n).core
  have inWb := Bool.toNat_le (dutAfter imem start cycles n).core.memWb.valid
  refine ⟨_, _, by omega, ?_, ?_, ?_, inv.regfile, regs, csrs, stores⟩
  · simp only [posMem]
    omega
  · simp only [posMem]
    omega
  · simp only [posIf, posId, posEx] at fetched
    omega

/-- Waits, memory waits and halts overlap; 11 of 30 clocks are open. -/
theorem pipeline_keeps_pace_storeLoadLoop :
    occurrences (openClock storeLoadLoop zeroStart raggedCycles) 0 30 = 11 ∧
    ∃ a b, occurrences (openClock storeLoadLoop zeroStart raggedCycles) 0 30 < 5 * (a + 1) ∧
      a ≤ b ∧ b ≤ a + 1 ∧ b ≤ 30 ∧
      (dutAfter storeLoadLoop zeroStart raggedCycles 30).core.regfile =
        (goldenAfter storeLoadLoop zeroStart a).core.regfile ∧
      dutRegWrites storeLoadLoop zeroStart raggedCycles 30 =
        goldenRegWrites storeLoadLoop zeroStart a ∧
      dutCsrWrites storeLoadLoop zeroStart raggedCycles 30 =
        goldenCsrWrites storeLoadLoop zeroStart a ∧
      dutStores storeLoadLoop zeroStart raggedCycles 30 = goldenStores storeLoadLoop zeroStart b :=
  ⟨by decide +kernel,
    pipeline_keeps_pace storeLoadLoop zeroStart raggedCycles storeLoadLoop_trapFree 30⟩

end RiscvSoc.Testbench.Throughput
