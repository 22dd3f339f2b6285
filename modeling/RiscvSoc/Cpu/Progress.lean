/- GID: RiscvSoc/Cpu/Progress
   generality: G
   utility: support
   digest: The oldest instruction of the pipeline moves on in every clock that nothing outside holds
   back. -/

import RiscvSoc.Clocked.Ranking
import RiscvSoc.Cpu.HazardStall

set_option autoImplicit false
set_option relaxedAutoImplicit false

namespace RiscvSoc.Cpu.Progress

open RiscvSoc.Cpu.Decoder
open RiscvSoc.Cpu.Datapath
open RiscvSoc.Cpu.Pipeline
open RiscvSoc.Cpu.PipelineEdge
open RiscvSoc.Cpu.HazardStall

/-- Clocks that the oldest instruction needs to retire, counting its fetch if there is none. -/
def distance (s : Core) : ℕ :=
  if s.memWb.valid then 1
  else if s.exMem.valid then 2
  else if s.idEx.valid then 3
  else if s.ifId.valid then 4
  else 5

def served (s : Core) (i : CoreIn) : Bool := !i.halt && i.imemVld && !s.memWait i

def retires (s : Core) (i : CoreIn) : Bool := !i.halt && s.memWb.valid

variable {s : Core} {i : CoreIn}

theorem distance_pos (s : Core) : 0 < distance s := by
  unfold distance
  split_ifs <;> omega

private theorem distance_le (s : Core) : distance s ≤ 5 := by
  unfold distance
  split_ifs <;> omega

private theorem idStall_alone (irq : Bool) (idEx : s.idEx.valid = false)
    (exMem : s.exMem.valid = false)
    (memWb : s.memWb.valid = false) : s.idStall irq = false := by
  apply idStall_of_drain
  rw [drain, stagesLeft_eq_zero, exBlocks, memBlocks, wbBlocks, blocks, blocks, blocks, idEx, exMem,
    memWb]
  rfl

/-- A clock in which WB holds an instruction pays for all that follows. -/
private theorem step_retired {t : Core} (event : Bool) (run : i.halt = false)
    (valid : s.memWb.valid = true) :
    distance t + event.toNat ≤ distance s + 5 * (retires s i).toNat := by
  have now : distance s = 1 := by rw [distance, if_pos valid]
  have small := distance_le t
  have event := event.toNat_le
  rw [now, retires, run, valid]
  simp only [Bool.not_false, Bool.and_self, Bool.toNat_true]
  omega

/-- Without interrupts the distance falls in every served clock in which nothing retires, and
never rises. -/
theorem distance_step (inert : Inert s) (noRst : i.rst = false) (noIrq : i.timerIrq = false) :
    distance (s.posedge i) + (served s i).toNat ≤ distance s + 5 * (retires s i).toNat := by
  refine posedge_rule noRst fun t edge => ?_
  have pays : i.halt = false → s.memWb.valid = true →
      distance t + (served s i).toNat ≤ distance s + 5 * (retires s i).toNat :=
    step_retired (served s i)
  cases edge with
  | halted halt => simp [served, halt]
  | waiting run wait =>
    cases wb : s.memWb.valid with
    | true => exact pays run wb
    | false => simp [served, wait, distance, wb]
  | flushed run ready flush =>
    cases wb : s.memWb.valid with
    | true => exact pays run wb
    | false =>
      have valid : s.idEx.valid = true := by
        apply inert.valid_of_flushBase
        simpa [Core.exFlush, Core.irqTaken, noIrq] using flush
      have event := (served s i).toNat_le
      cases mem : s.exMem.valid <;>
        simp [distance, ExMem.toMemWb, IdEx.toExMem, wb, mem, valid] <;> omega
  | stalled run ready straight stall =>
    cases wb : s.memWb.valid with
    | true => exact pays run wb
    | false =>
      have event := (served s i).toNat_le
      cases mem : s.exMem.valid with
      | true =>
        simp [distance, ExMem.toMemWb, wb, mem]
        omega
      | false =>
        cases ex : s.idEx.valid with
        | true =>
          simp [distance, ExMem.toMemWb, IdEx.toExMem, wb, mem, ex]
          omega
        | false =>
          rw [Core.frontStall, idStall_alone _ ex mem wb, Bool.false_or, Core.ifWait] at stall
          simp only [Bool.and_eq_true, Bool.not_eq_true'] at stall
          simp [distance, served, ExMem.toMemWb, IdEx.toExMem, wb, mem, ex, stall.2]
  | advanced run ready straight go =>
    cases wb : s.memWb.valid with
    | true => exact pays run wb
    | false =>
      have event := (served s i).toNat_le
      cases mem : s.exMem.valid <;> cases ex : s.idEx.valid <;> cases id : s.ifId.valid <;>
        simp [distance, ExMem.toMemWb, IdEx.toExMem, Core.toIdEx, wb, mem, ex, id] <;> omega

end RiscvSoc.Cpu.Progress
