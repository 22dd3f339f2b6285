/- GID: RiscvSoc/Cpu/HazardStall
   generality: G
   utility: main
   digest: A hazard holds an instruction in ID for three clocks at most, and does not come back. -/

import RiscvSoc.Clocked.Ranking
import RiscvSoc.Cpu.PipelineEdge

set_option autoImplicit false
set_option relaxedAutoImplicit false

namespace RiscvSoc.Cpu.HazardStall

open RiscvSoc.Cpu.Decoder
open RiscvSoc.Cpu.Datapath
open RiscvSoc.Cpu.Pipeline
open RiscvSoc.Cpu.PipelineEdge
open RiscvSoc.Clocked.Trajectory
open RiscvSoc.Clocked.Ranking

section Writers

/-- A stage holds a writer that the word in ID waits for: of the CSR it jumps through, or of a
register it reads. -/
def blocks (instr : Word) (valid wrEn : Bool) (rd : Reg) (isCsr : Bool) (csrAddr : CsrAddr) :
    Bool :=
  valid &&
    ((isEcall instr || isEbreak instr || isMret instr) && isCsr &&
        csrAddr == (if isMret instr then aMepc else aMtvec) ||
      rs1Valid instr && rs1 instr != 0 && wrEn && rd == rs1 instr ||
      rs2Valid instr && rs2 instr != 0 && wrEn && rd == rs2 instr)

def exBlocks (instr : Word) (x : IdEx) : Bool :=
  blocks instr x.valid x.wrEn x.rd x.ctrl.isCsr x.csrAddr

def memBlocks (instr : Word) (x : ExMem) : Bool :=
  blocks instr x.valid x.wrEn x.rd x.isCsr x.csrAddr

def wbBlocks (instr : Word) (x : MemWb) : Bool :=
  blocks instr x.valid x.wrEn x.rd x.isCsr x.csrAddr

variable (instr : Word)

/-- A bubble blocks nothing. -/
@[simp] theorem exBlocks_bubble : exBlocks instr {} = false := rfl

@[simp] theorem wbBlocks_bubble : wbBlocks instr {} = false := rfl

/-- A writer keeps blocking as it moves down the pipeline. -/
@[simp] theorem memBlocks_toExMem (x : IdEx) : memBlocks instr x.toExMem = exBlocks instr x := rfl

@[simp] theorem wbBlocks_toMemWb (x : ExMem) (ldData : Word) :
    wbBlocks instr (x.toMemWb ldData) = memBlocks instr x := rfl

/-- Without a flush `id_stall` is up exactly when one of the three stages behind ID blocks the
valid word in ID; `irq_taken` has no part in it, since it flushes. -/
private theorem idStall_eq {s : Core} {irq : Bool} (straight : s.exFlush irq = false) :
    s.idStall irq = (s.ifId.valid && (exBlocks s.ifId.instr s.idEx ||
      memBlocks s.ifId.instr s.exMem || wbBlocks s.ifId.instr s.memWb)) := by
  have noIrq := (of_straight straight).1
  simp only [Core.idStall, Core.privHazard, Core.csrInFlight, Core.regInFlight, Core.privCsrAddr,
    straight, noIrq, exBlocks, memBlocks, wbBlocks, blocks, Bool.or_false, Bool.not_false,
    Bool.and_true]
  -- both sides are the same nine conjunctions, sorted by register here and by stage there
  simp only [Bool.and_or_distrib_left, Bool.and_or_distrib_right]
  ac_rfl

private theorem idStall_flushed {s : Core} {irq : Bool} (flush : s.exFlush irq = true) :
    s.idStall irq = false := by
  simp [Core.idStall, flush]

end Writers

section Drain

/-- Stages that a blocking writer in EX, MEM or WB still has to leave, the youngest counting. -/
def stagesLeft (ex mem wb : Bool) : ℕ := if ex then 3 else if mem then 2 else if wb then 1 else 0

def drain (s : Core) : ℕ :=
  stagesLeft (exBlocks s.ifId.instr s.idEx) (memBlocks s.ifId.instr s.exMem)
    (wbBlocks s.ifId.instr s.memWb)

private theorem stagesLeft_le (ex mem wb : Bool) : stagesLeft ex mem wb ≤ 3 := by
  cases ex <;> cases mem <;> cases wb <;> decide

theorem stagesLeft_eq_zero {ex mem wb : Bool} :
    stagesLeft ex mem wb = 0 ↔ (ex || mem || wb) = false := by
  cases ex <;> cases mem <;> cases wb <;> decide

private theorem stagesLeft_empty (ex mem wb : Bool) :
    stagesLeft ex mem false ≤ stagesLeft ex mem wb := by
  cases ex <;> cases mem <;> cases wb <;> decide

private theorem stagesLeft_shift (ex mem wb : Bool) :
    stagesLeft false ex mem + (ex || mem || wb).toNat ≤ stagesLeft ex mem wb := by
  cases ex <;> cases mem <;> cases wb <;> decide

/-- The front end keeps IF/ID on this edge: the core is halted or waits for the memory, or ID
stalls on a hazard or on the fetch, and nothing flushes. -/
def Holds (s : Core) (i : CoreIn) : Prop :=
  i.rst = false ∧
    (i.halt = true ∨ s.memWait i = true ∨ s.exFlush i.timerIrq = false ∧ s.frontStall i = true)

/-- A clock that is neither halted nor in `mem_wait`. -/
def counted (s : Core) (i : CoreIn) : Bool := !i.halt && !s.memWait i

/-- Such a clock in which a hazard holds the instruction in ID. -/
def hazardClock (s : Core) (i : CoreIn) : Bool := counted s i && s.idStall i.timerIrq

variable {s : Core} {i : CoreIn}

/-- With no writer left ahead nothing stalls ID, whatever `timer_irq` does. -/
theorem idStall_of_drain (irq : Bool) (drained : drain s = 0) : s.idStall irq = false := by
  rcases Bool.eq_false_or_eq_true (s.exFlush irq) with flush | straight
  · exact idStall_flushed flush
  · rw [idStall_eq straight, stagesLeft_eq_zero.mp drained, Bool.and_false]

/-- Every edge that keeps IF/ID lets the writers ahead move on or stand, and a hazard clock moves
them by one stage. -/
private theorem holds_step (holds : Holds s i) :
    (s.posedge i).ifId = s.ifId ∧
      drain (s.posedge i) + (hazardClock s i).toNat ≤ drain s := by
  obtain ⟨noRst, kept⟩ := holds
  refine posedge_rule noRst fun t edge => ?_
  cases edge with
  | halted halt =>
    have still : hazardClock s i = false := by simp [hazardClock, counted, halt]
    simp [still]
  | waiting run wait =>
    have still : hazardClock s i = false := by simp [hazardClock, counted, wait]
    refine ⟨rfl, ?_⟩
    simp only [still, Bool.toNat_false, Nat.add_zero, drain, wbBlocks_bubble]
    exact stagesLeft_empty _ _ _
  | flushed run ready flush => simp [run, ready, flush] at kept
  | advanced run ready straight go => simp [run, ready, go] at kept
  | stalled run ready straight stall =>
    have hazard : hazardClock s i = s.idStall i.timerIrq := by
      simp [hazardClock, counted, run, ready]
    have shift := stagesLeft_shift (exBlocks s.ifId.instr s.idEx) (memBlocks s.ifId.instr s.exMem)
      (wbBlocks s.ifId.instr s.memWb)
    refine ⟨rfl, ?_⟩
    simp only [drain, exBlocks_bubble, memBlocks_toExMem, wbBlocks_toMemWb]
    apply le_trans (Nat.add_le_add_left ?_ _) shift
    rw [hazard, idStall_eq straight]
    cases s.ifId.valid <;> simp

private theorem drained_of_counted (holds : Holds s i) (valid : s.ifId.valid = true)
    (ready : counted s i = true) (free : s.idStall i.timerIrq = false) : drain s = 0 := by
  simp only [counted, Bool.and_eq_true, Bool.not_eq_true'] at ready
  obtain ⟨-, halt | wait | ⟨straight, -⟩⟩ := holds
  · rw [ready.1] at halt
    exact absurd halt Bool.false_ne_true
  · rw [ready.2] at wait
    exact absurd wait Bool.false_ne_true
  · rw [idStall_eq straight, valid, Bool.true_and] at free
    exact stagesLeft_eq_zero.mpr free

private theorem hazardClock_of_fetched (holds : Holds s i) (ready : counted s i = true)
    (fetched : i.imemVld = true) : hazardClock s i = true := by
  rw [hazardClock, ready, Bool.true_and]
  simp only [counted, Bool.and_eq_true, Bool.not_eq_true'] at ready
  obtain ⟨-, halt | wait | ⟨-, stall⟩⟩ := holds
  · rw [ready.1] at halt
    exact absurd halt Bool.false_ne_true
  · rw [ready.2] at wait
    exact absurd wait Bool.false_ne_true
  · simpa [Core.frontStall, Core.ifWait, fetched] using stall

end Drain

section Runs

variable {s : Core} {input : ℕ → CoreIn}

/-- A run of the core from any state. -/
abbrev run (s : Core) (input : ℕ → CoreIn) : ℕ → Core := trajectory Core.posedge s input

variable {p q : ℕ}

private theorem occurrences_hazardClock (le : p ≤ q)
    (held : ∀ k, p ≤ k → k < q → Holds (run s input k) (input k)) :
    occurrences (fun k => hazardClock (run s input k) (input k)) p q + drain (run s input q) ≤
      drain (run s input p) :=
  @occurrences_add_rank_le (fun k => drain (run s input k)) p q _ le fun k lo hi =>
    (holds_step (held k lo hi)).2

private theorem ifId_held (le : p ≤ q)
    (held : ∀ k, p ≤ k → k < q → Holds (run s input k) (input k)) :
    (run s input q).ifId = (run s input p).ifId := by
  induction q, le using Nat.le_induction with
  | base => rfl
  | succ q le ih =>
    have earlier := ih fun k lo hi => held k lo (by omega)
    exact (holds_step (held q le (by omega))).1.trans earlier

/-- An instruction kept in IF/ID from clock `p` to clock `q` is held by `id_stall` in three clocks
at most that are neither halted nor in `mem_wait`, and leaves in the fourth such clock with an
answered fetch at the latest; after such a clock without a stall no hazard holds it again. -/
theorem hazard_stall_clears (s : Core) (input : ℕ → CoreIn) {p q : ℕ}
    (held : ∀ k, p ≤ k → k < q → Holds (run s input k) (input k)) :
    (∀ k, p ≤ k → k ≤ q → (run s input k).ifId = (run s input p).ifId) ∧
    occurrences (fun k => hazardClock (run s input k) (input k)) p q ≤ 3 ∧
    occurrences (fun k => counted (run s input k) (input k) && (input k).imemVld) p q ≤ 3 ∧
    ∀ k m, p ≤ k → k < m → m ≤ q → counted (run s input k) (input k) = true →
      (run s input k).idStall (input k).timerIrq = false →
      (run s input m).idStall (input m).timerIrq = false := by
  have few : occurrences (fun k => hazardClock (run s input k) (input k)) p q ≤ 3 := by
    rcases Nat.lt_or_ge q p with empty | le
    · simp [occurrences, Finset.Ico_eq_empty_of_le (Nat.le_of_lt empty)]
    · have paid := occurrences_hazardClock le held
      have start := stagesLeft_le (exBlocks (run s input p).ifId.instr (run s input p).idEx)
        (memBlocks (run s input p).ifId.instr (run s input p).exMem)
        (wbBlocks (run s input p).ifId.instr (run s input p).memWb)
      exact le_trans (Nat.le_add_right _ _) (le_trans paid start)
  refine ⟨?_, few, ?_, ?_⟩
  · intro k lo hi
    exact ifId_held lo fun j first last => held j first (by omega)
  · apply le_trans (occurrences_mono ?_) few
    intro k lo hi answered
    rw [Bool.and_eq_true] at answered
    exact hazardClock_of_fetched (held k lo hi) answered.1 answered.2
  · intro k m lo lt hi ready free
    have same := ifId_held (Nat.le_of_lt lt) fun j first last => held j (by omega) (by omega)
    rcases Bool.eq_false_or_eq_true (run s input k).ifId.valid with valid | empty
    · have drained := drained_of_counted (held k lo (by omega)) valid ready free
      have paid := occurrences_hazardClock (Nat.le_of_lt lt) fun j first last =>
        held j (by omega) (by omega)
      exact idStall_of_drain _ (by omega)
    · rw [Core.idStall, same, empty, Bool.false_and, Bool.false_and]

/-- `addi x1, x0, 1` and behind it `addi x2, x1, 1`. -/
def dependentPair : Word → Word := fun pc =>
  if pc = 0 then 0x00100093 else if pc = 4 then 0x00108113 else 0x00000013

def dependentInput : ℕ → CoreIn :=
  programInput dependentPair (fun _ => false) ⟨0, 0, 0, 0, 0, 0, 0, 0⟩ fun _ => 0

/-- The second instruction waits for x1 in clocks 2, 3 and 4. -/
theorem hazard_stall_clears_dependentPair :
    occurrences (fun k => hazardClock
      (run (Core.reset ⟨0, 0, 0, 0, 0, 0, 0, 0⟩ fun _ => 0) dependentInput k) (dependentInput k))
        2 5 ≤ 3 := by
  refine (hazard_stall_clears _ dependentInput ?_).2.1
  intro k lo hi
  have cases : k = 2 ∨ k = 3 ∨ k = 4 := by omega
  rcases cases with rfl | rfl | rfl <;>
    exact ⟨by decide +kernel, .inr (.inr (by decide +kernel))⟩

end Runs

end RiscvSoc.Cpu.HazardStall
