/- GID: RiscvSoc/Cpu/Fetched
   generality: G
   utility: support
   digest: The fetches behind the pipeline registers, and the first one to commit. -/

import RiscvSoc.Cpu.TrapWindow

set_option autoImplicit false
set_option relaxedAutoImplicit false

namespace RiscvSoc.Cpu.Fetched

open RiscvSoc.Clocked.Trajectory
open RiscvSoc.Cpu.Decoder
open RiscvSoc.Cpu.Datapath
open RiscvSoc.Cpu.Pipeline
open RiscvSoc.Cpu.PipelineEdge
open RiscvSoc.Cpu.TrapWindow

/-- A fetch since the start of a run: the address and the word. -/
structure Fetch where
  pc : Word
  instr : Word
  deriving DecidableEq

/-- The fetches of the instructions in the pipeline registers. A valid register without one
holds an instruction from before the start. -/
structure Flight where
  ifId : Option Fetch := none
  idEx : Option Fetch := none
  exMem : Option Fetch := none
  memWb : Option Fetch := none

/-- The fetches move as `Core.posedge` moves the registers. -/
def Flight.posedge (f : Flight) (s : Core) (i : CoreIn) : Flight where
  ifId :=
    if i.rst then none
    else if i.halt then f.ifId
    else if s.memWait i then f.ifId
    else if s.exFlush i.timerIrq then none
    else if s.frontStall i then f.ifId
    else some ⟨s.pc, i.imemRdata⟩
  idEx :=
    if i.rst then none
    else if i.halt then f.idEx
    else if s.memWait i then f.idEx
    else if s.exFlush i.timerIrq then none
    else if s.frontStall i then none
    else f.ifId
  exMem :=
    if i.rst then none
    else if i.halt then f.exMem
    else if s.memWait i then f.exMem
    else f.idEx
  memWb :=
    if i.rst then none
    else if i.halt then f.memWb
    else if s.memWait i then none
    else f.exMem

section Runs

variable (c : Core) (i : ℕ → CoreIn)

/-- The core at clock `n`. -/
abbrev core : ℕ → Core := trajectory Core.posedge c i

/-- The fetches of what is in its pipeline. -/
def flight : ℕ → Flight
  | 0 => {}
  | n + 1 => (flight n).posedge (core c i n) (i n)

/-- An instruction commits on edge `n`. -/
def Commits (n : ℕ) : Prop := (i n).halt = false ∧ (core c i n).memWb.valid = true

/-- The first instruction that commits is this one. -/
def FirstCommit (x : Option Fetch) : Prop :=
  ∃ n, Commits c i n ∧ (flight c i n).memWb = x ∧ ∀ k < n, ¬Commits c i k

/-- Every instruction that commits has been fetched in this run. -/
def AllFetched : Prop := ∀ n, Commits c i n → (flight c i n).memWb ≠ none

end Runs

section Fresh

/-- Every instruction in the pipeline has been fetched in this run. -/
structure Fresh (s : Core) (f : Flight) : Prop where
  ifId : s.ifId.valid = true → f.ifId ≠ none
  idEx : s.idEx.valid = true → f.idEx ≠ none
  exMem : s.exMem.valid = true → f.exMem ≠ none
  memWb : s.memWb.valid = true → f.memWb ≠ none

private theorem fresh_posedge {s : Core} {f : Flight} (fresh : Fresh s f) (i : CoreIn) :
    Fresh (s.posedge i) (f.posedge s i) := by
  obtain ⟨ifId, idEx, exMem, memWb⟩ := fresh
  by_cases rst : i.rst = true
  · constructor <;> simp [Core.posedge, rst]
  by_cases halt : i.halt = true
  · constructor <;> simp [Core.posedge, Flight.posedge, rst, halt] <;> assumption
  by_cases wait : s.memWait i = true
  · constructor <;> simp [Core.posedge, Flight.posedge, rst, halt, wait] <;> assumption
  by_cases flush : s.exFlush i.timerIrq = true
  · constructor <;>
      simp [Core.posedge, Flight.posedge, rst, halt, wait, flush, IdEx.toExMem, ExMem.toMemWb] <;>
      assumption
  by_cases stall : s.frontStall i = true
  · constructor <;>
      simp [Core.posedge, Flight.posedge, rst, halt, wait, flush, stall, IdEx.toExMem,
        ExMem.toMemWb] <;>
      assumption
  · constructor <;>
      simp [Core.posedge, Flight.posedge, rst, halt, wait, flush, stall, Core.toIdEx, IdEx.toExMem,
        ExMem.toMemWb] <;>
      assumption

variable {c : Core} {i : ℕ → CoreIn}

private theorem fresh_run {n m : ℕ} (le : n ≤ m) (fresh : Fresh (core c i n) (flight c i n)) :
    Fresh (core c i m) (flight c i m) := by
  induction m, le using Nat.le_induction with
  | base => exact fresh
  | succ m _ ih => exact fresh_posedge ih (i m)

private theorem firstCommit_unique {x y : Option Fetch} (first : FirstCommit c i x)
    (other : FirstCommit c i y) : x = y := by
  obtain ⟨n, commits, tag, before⟩ := first
  obtain ⟨m, commits', tag', before'⟩ := other
  have same : n = m := by
    refine le_antisymm ?_ ?_
    · exact Nat.le_of_not_lt fun lt => before m lt commits'
    · exact Nat.le_of_not_lt fun lt => before' n lt commits
  rw [← tag, same, tag']

private theorem allFetched_of_fresh {n : ℕ} (fresh : Fresh (core c i n) (flight c i n))
    (before : ∀ k < n, ¬Commits c i k) : AllFetched c i := by
  intro m commits
  by_cases early : m < n
  · exact absurd commits (before m early)
  · exact (fresh_run (by omega) fresh).memWb commits.2

end Fresh

section Drained

theorem inert_next {s : Core} (inert : Inert s) (i : CoreIn) : Inert (s.posedge i) := by
  by_cases rst : i.rst = true
  · refine ⟨?_, ?_, ?_⟩ <;> simp [Core.posedge, rst]
  · exact inert_posedge inert (Bool.eq_false_iff.mpr rst)

/-- Nothing is left in EX, MEM and WB. -/
structure Drained (s : Core) : Prop where
  inert : Inert s
  idEx : s.idEx.valid = false
  exMem : s.exMem.valid = false
  memWb : s.memWb.valid = false

/-- A timer interrupt is enabled and pending. -/
def pends (s : Core) (timerIrq : Bool) : Bool :=
  s.csr.mstatus.getLsbD 3 && s.csr.mie.getLsbD 7 && timerIrq

variable {s : Core} {i : CoreIn}

private theorem pends_of_csr {t : Core} (same : t.csr = s.csr) (irq : Bool) :
    pends t irq = pends s irq := by
  rw [pends, same, pends]

private theorem Drained.exFlush (drained : Drained s) (irq : Bool) :
    s.exFlush irq = pends s irq := by
  obtain ⟨flush, priv, -⟩ := drained.inert.bubble drained.idEx
  simp [Core.exFlush, Core.irqTaken, flush, priv, pends]

theorem Drained.irqTaken (drained : Drained s) (irq : Bool) : s.irqTaken irq = pends s irq := by
  obtain ⟨-, priv, -⟩ := drained.inert.bubble drained.idEx
  simp [Core.irqTaken, priv, pends]

theorem memWait_of_exMem (empty : s.exMem.valid = false) (i : CoreIn) : s.memWait i = false := by
  simp [Core.memWait, Core.dataPort, ExMem.dataPort, DataPort.req, empty]

theorem Drained.memWait (drained : Drained s) (i : CoreIn) : s.memWait i = false :=
  memWait_of_exMem drained.exMem i

private theorem Drained.frontStall (drained : Drained s) (halt : i.halt = false) :
    s.frontStall i = !i.imemVld := by
  simp [Core.frontStall, Core.idStall, Core.privHazard, Core.csrInFlight, Core.regInFlight,
    Core.ifWait, drained.idEx, drained.exMem, drained.memWb, halt]

private theorem Drained.commitCsr (drained : Drained s) (irq : Bool) :
    s.memWb.commitCsr s.csr irq = s.csr := by
  simp [MemWb.commitCsr, drained.memWb]

/-- The interrupt takes a drained pipeline to its handler, and what was in ID is lost. -/
theorem Drained.posedge_trap (drained : Drained s) (rst : i.rst = false) (halt : i.halt = false)
    (trap : pends s i.timerIrq = true) :
    Drained (s.posedge i) ∧ (s.posedge i).ifId.valid = false ∧ (s.posedge i).pc = s.csr.mtvec ∧
      ∀ irq, pends (s.posedge i) irq = false := by
  have flush := (drained.exFlush i.timerIrq).trans trap
  have irq := (drained.irqTaken i.timerIrq).trans trap
  refine ⟨⟨inert_posedge drained.inert rst, ?_, ?_, ?_⟩, ?_, ?_, ?_⟩
  · simp [Core.posedge, rst, halt, drained.memWait, flush]
  · simp [Core.posedge, rst, halt, drained.memWait, IdEx.toExMem, drained.idEx]
  · simp [Core.posedge, rst, halt, drained.memWait, ExMem.toMemWb, drained.exMem]
  · simp [Core.posedge, rst, halt, drained.memWait, flush]
  · simp [Core.posedge, rst, halt, drained.memWait, flush, Core.nextPc, irq]
  · have entry : s.trapEntry i = true := by
      simp [Core.trapEntry, halt, drained.memWait, irq]
    intro again
    simp only [pends, mie_of_trapEntry entry, Bool.false_and]

private theorem Drained.posedge_csr (drained : Drained s) (halt : i.halt = false)
    (calm : pends s i.timerIrq = false) : (s.posedge i).csr = s.csr := by
  have straight := (drained.exFlush i.timerIrq).trans calm
  exact (nextCsr_straight halt straight).trans (drained.commitCsr i.timerIrq)

private theorem Drained.posedge_fetch (drained : Drained s) (f : Flight) (rst : i.rst = false)
    (halt : i.halt = false) (calm : pends s i.timerIrq = false) (valid : i.imemVld = true) :
    (s.posedge i).pc = s.pc + 4 ∧ (s.posedge i).ifId.valid = true ∧
      (f.posedge s i).ifId = some ⟨s.pc, i.imemRdata⟩ ∧
      (s.posedge i).idEx.valid = s.ifId.valid ∧ (f.posedge s i).idEx = f.ifId ∧
      (s.posedge i).exMem.valid = false ∧ (s.posedge i).memWb.valid = false := by
  have straight := (drained.exFlush i.timerIrq).trans calm
  have go : s.frontStall i = false := by rw [drained.frontStall halt, valid]; rfl
  refine ⟨?_, ?_, ?_, ?_, ?_, ?_, ?_⟩
  · simp [Core.posedge, rst, halt, drained.memWait, straight, go, nextPc_straight straight]
  · simp [Core.posedge, rst, halt, drained.memWait, straight, go]
  · simp [Flight.posedge, rst, halt, drained.memWait, straight, go]
  · simp [Core.posedge, rst, halt, drained.memWait, straight, go, Core.toIdEx]
  · simp [Flight.posedge, rst, halt, drained.memWait, straight, go]
  · simp [Core.posedge, rst, halt, drained.memWait, IdEx.toExMem, drained.idEx]
  · simp [Core.posedge, rst, halt, drained.memWait, ExMem.toMemWb, drained.exMem]

/-- Without a fetch ID keeps what it has. -/
theorem Drained.posedge_stall (drained : Drained s) (f : Flight) (rst : i.rst = false)
    (halt : i.halt = false) (calm : pends s i.timerIrq = false) (wait : i.imemVld = false) :
    Drained (s.posedge i) ∧ (s.posedge i).pc = s.pc ∧ (s.posedge i).ifId = s.ifId ∧
      (f.posedge s i).ifId = f.ifId := by
  have straight := (drained.exFlush i.timerIrq).trans calm
  have stall : s.frontStall i = true := by rw [drained.frontStall halt, wait]; rfl
  refine ⟨⟨inert_posedge drained.inert rst, ?_, ?_, ?_⟩, ?_, ?_, ?_⟩
  · simp [Core.posedge, rst, halt, drained.memWait, straight, stall]
  · simp [Core.posedge, rst, halt, drained.memWait, IdEx.toExMem, drained.idEx]
  · simp [Core.posedge, rst, halt, drained.memWait, ExMem.toMemWb, drained.exMem]
  · simp [Core.posedge, rst, halt, drained.memWait, straight, stall]
  · simp [Core.posedge, rst, halt, drained.memWait, straight, stall]
  · simp [Flight.posedge, rst, halt, drained.memWait, straight, stall]

end Drained

section Release

/-- The first clocks after the core is released: it is neither reset nor halted, and the bus
answers an address that has stood still for a clock. The first addresses have. -/
structure Released (c : Core) (i : ℕ → CoreIn) (clocks : ℕ) : Prop where
  rst : ∀ k < clocks, (i k).rst = false
  halt : ∀ k < clocks, (i k).halt = false
  fetch : (i 0).imemVld = true
  nextFetch : ∀ k, k + 1 < clocks →
    (i (k + 1)).imemVld = ((core c i (k + 1)).pc == (core c i k).pc)
  access : c.dataPort.req = true → (i 0).dmemVld = true
  nextAccess : ∀ k, k + 1 < clocks → (core c i (k + 1)).dataPort.req = true →
    (core c i (k + 1)).dataPort.addr = (core c i k).dataPort.addr → (i (k + 1)).dmemVld = true

variable {c : Core} {i : ℕ → CoreIn} {clocks k : ℕ}

private theorem moves_of_ready (bus : Released c i clocks) (inside : k < clocks)
    (ready : (core c i k).memWait (i k) = false) :
    (core c i (k + 1)).exMem.valid = (core c i k).idEx.valid ∧
      (flight c i (k + 1)).exMem = (flight c i k).idEx ∧
      (core c i (k + 1)).memWb.valid = (core c i k).exMem.valid ∧
      (flight c i (k + 1)).memWb = (flight c i k).exMem := by
  have rst := bus.rst k inside
  have halt := bus.halt k inside
  refine ⟨?_, ?_, ?_, ?_⟩ <;>
    simp [core, trajectory_succ, flight, Core.posedge, Flight.posedge, rst, halt, ready,
      IdEx.toExMem, ExMem.toMemWb]

private theorem commit_of_exMem (bus : Released c i clocks) (inside : k + 2 < clocks)
    (valid : (core c i k).exMem.valid = true) :
    ∃ n, Commits c i n ∧ (flight c i n).memWb = (flight c i k).exMem ∧
      ∀ j, k < j → j < n → ¬Commits c i j := by
  have rst := bus.rst k (by omega)
  have halt := bus.halt k (by omega)
  by_cases wait : (core c i k).memWait (i k) = true
  · have same : (core c i (k + 1)).exMem = (core c i k).exMem := by
      simp [core, trajectory_succ, Core.posedge, rst, halt, wait]
    have flown : (flight c i (k + 1)).exMem = (flight c i k).exMem := by
      simp [flight, Flight.posedge, rst, halt, wait]
    have empty : (core c i (k + 1)).memWb.valid = false := by
      simp [core, trajectory_succ, Core.posedge, rst, halt, wait]
    have port : (core c i (k + 1)).dataPort = (core c i k).dataPort := by
      rw [Core.dataPort, same, Core.dataPort]
    simp only [Core.memWait, Bool.and_eq_true] at wait
    have answered : (i (k + 1)).dmemVld = true :=
      bus.nextAccess k (by omega) (by rw [port, wait.1]) (by rw [port])
    have ready : (core c i (k + 1)).memWait (i (k + 1)) = false := by
      rw [Core.memWait, answered]
      simp
    obtain ⟨-, -, next, tag⟩ := moves_of_ready bus (by omega) ready
    refine ⟨k + 2, ⟨bus.halt _ inside, ?_⟩, ?_, ?_⟩
    · rw [next, same, valid]
    · rw [tag, flown]
    · intro j lo hi commits
      obtain rfl : j = k + 1 := by omega
      exact Bool.false_ne_true (empty.symm.trans commits.2)
  · rw [Bool.not_eq_true] at wait
    obtain ⟨-, -, next, tag⟩ := moves_of_ready bus (by omega) wait
    exact ⟨k + 1, ⟨bus.halt _ (by omega), by rw [next, valid]⟩, tag, by omega⟩

private theorem commit_of_idEx (bus : Released c i clocks) (inside : k + 3 < clocks)
    (valid : (core c i k).idEx.valid = true) (empty : (core c i k).exMem.valid = false) :
    ∃ n, Commits c i n ∧ (flight c i n).memWb = (flight c i k).idEx ∧
      ∀ j, k < j → j < n → ¬Commits c i j := by
  have ready := memWait_of_exMem empty (i k)
  obtain ⟨next, tag, bubble, -⟩ := moves_of_ready bus (by omega) ready
  obtain ⟨n, commits, same, first⟩ := commit_of_exMem bus (k := k + 1) (by omega) (next.trans valid)
  refine ⟨n, commits, same.trans tag, ?_⟩
  intro j lo hi again
  by_cases here : j = k + 1
  · subst here
    exact Bool.false_ne_true ((bubble.trans empty).symm.trans again.2)
  · exact first j (by omega) hi again

section Leftover

/-- Whatever EX, MEM or WB holds at the start commits. -/
theorem not_allFetched_of_valid (bus : Released c i clocks) (inside : 4 < clocks)
    (valid : c.idEx.valid = true ∨ c.exMem.valid = true ∨ c.memWb.valid = true) :
    ¬AllFetched c i := by
  intro all
  have halt := bus.halt 0 (by omega)
  by_cases wb : c.memWb.valid = true
  · exact all 0 ⟨halt, wb⟩ rfl
  by_cases mem : c.exMem.valid = true
  · obtain ⟨n, commits, tag, -⟩ := commit_of_exMem bus (k := 0) (by omega) mem
    exact all n commits tag
  have ex : c.idEx.valid = true := by tauto
  rw [Bool.not_eq_true] at mem
  obtain ⟨n, commits, tag, -⟩ := commit_of_idEx bus (k := 0) (by omega) ex mem
  exact all n commits tag

private theorem not_allFetched_of_ifId (bus : Released c i clocks) (inside : 5 < clocks)
    (drained : Drained c) (calm : pends c (i 0).timerIrq = false) (valid : c.ifId.valid = true) :
    ¬AllFetched c i := by
  intro all
  obtain ⟨-, -, -, ex, tag, mem, -⟩ := drained.posedge_fetch {} (bus.rst 0 (by omega))
    (bus.halt 0 (by omega)) calm bus.fetch
  change (core c i 1).exMem.valid = false at mem
  obtain ⟨n, commits, same, -⟩ := commit_of_idEx bus (k := 1) (by omega) (ex.trans valid) mem
  exact all n commits (same.trans tag)

end Leftover

section FirstFetch

private theorem clock_fetch (bus : Released c i clocks) (inside : k + 1 < clocks)
    (here : Drained (core c i k)) (empty : (core c i k).ifId.valid = false)
    (calm : pends (core c i k) (i k).timerIrq = false) (valid : (i k).imemVld = true) :
    Drained (core c i (k + 1)) ∧ (core c i (k + 1)).csr = (core c i k).csr ∧
      (core c i (k + 1)).ifId.valid = true ∧
      (flight c i (k + 1)).ifId = some ⟨(core c i k).pc, (i k).imemRdata⟩ ∧
      (i (k + 1)).imemVld = false := by
  have rst := bus.rst k (by omega)
  have halt := bus.halt k (by omega)
  obtain ⟨pc, fetched, tag, ex, -, mem, wb⟩ :=
    here.posedge_fetch (flight c i k) rst halt calm valid
  refine ⟨⟨inert_posedge here.inert rst, ex.trans empty, mem, wb⟩, here.posedge_csr halt calm,
    fetched, tag, ?_⟩
  change (core c i (k + 1)).pc = (core c i k).pc + 4 at pc
  rw [bus.nextFetch k inside, pc]
  simp

private theorem clock_stall (bus : Released c i clocks) (inside : k + 1 < clocks)
    (here : Drained (core c i k)) (calm : pends (core c i k) (i k).timerIrq = false)
    (wait : (i k).imemVld = false) :
    Drained (core c i (k + 1)) ∧ (core c i (k + 1)).csr = (core c i k).csr ∧
      (core c i (k + 1)).pc = (core c i k).pc ∧ (core c i (k + 1)).ifId = (core c i k).ifId ∧
      (flight c i (k + 1)).ifId = (flight c i k).ifId ∧ (i (k + 1)).imemVld = true := by
  have rst := bus.rst k (by omega)
  have halt := bus.halt k (by omega)
  obtain ⟨next, pc, ifId, tag⟩ := here.posedge_stall (flight c i k) rst halt calm wait
  refine ⟨next, here.posedge_csr halt calm, pc, ifId, tag, ?_⟩
  change (core c i (k + 1)).pc = (core c i k).pc at pc
  rw [bus.nextFetch k inside, pc]
  simp

private theorem drained_succ (drained : ∀ j ≤ k, Drained (core c i j))
    (next : Drained (core c i (k + 1))) :
    ∀ j ≤ k + 1, Drained (core c i j) := by
  intro j le
  rcases Nat.le_succ_iff.mp le with before | rfl
  · exact drained j before
  · exact next

/-- The fetch of an empty pipeline commits before anything else, if no interrupt comes until it
is in EX. -/
private theorem firstCommit_of_fetch (bus : Released c i clocks) (inside : k + 6 < clocks)
    (drained : ∀ j ≤ k, Drained (core c i j)) (empty : (core c i k).ifId.valid = false)
    (valid : (i k).imemVld = true)
    (calm : ∀ j < 3, pends (core c i k) (i (k + j)).timerIrq = false) :
    FirstCommit c i (some ⟨(core c i k).pc, (i k).imemRdata⟩) := by
  -- in the second clock the bus gets the next address, in the third the fetch goes on to EX
  obtain ⟨drained₁, csr₁, valid₁, tag₁, wait⟩ :=
    clock_fetch bus (by omega) (drained k le_rfl) empty (calm 0 (by omega)) valid
  have calm₁ := (pends_of_csr csr₁ _).trans (calm 1 (by omega))
  obtain ⟨drained₂, csr₂, -, ifId₂, tag₂, go⟩ := clock_stall bus (by omega) drained₁ calm₁ wait
  have calm₂ := (pends_of_csr (csr₂.trans csr₁) _).trans (calm 2 (by omega))
  obtain ⟨-, -, -, ex₃, tag₃, mem₃, wb₃⟩ := drained₂.posedge_fetch (flight c i (k + 2))
    (bus.rst _ (by omega)) (bus.halt _ (by omega)) calm₂ go
  have valid₃ : (core c i (k + 3)).idEx.valid = true :=
    ex₃.trans ((congrArg IfId.valid ifId₂).trans valid₁)
  obtain ⟨n, commits, tag, first⟩ := commit_of_idEx bus (k := k + 3) (by omega) valid₃ mem₃
  refine ⟨n, commits, tag.trans (tag₃.trans (tag₂.trans tag₁)), ?_⟩
  intro j lt early
  have bubble : (core c i j).memWb.valid = false := by
    rcases Nat.lt_or_ge (k + 3) j with late | le
    · exact absurd early (first j late lt)
    obtain before | rfl | rfl | rfl : j ≤ k ∨ j = k + 1 ∨ j = k + 2 ∨ j = k + 3 := by omega
    · exact (drained j before).memWb
    · exact drained₁.memWb
    · exact drained₂.memWb
    · exact wb₃
  exact Bool.false_ne_true (bubble.symm.trans early.2)

private theorem allFetched_of_empty (drained : ∀ j ≤ k, Drained (core c i j))
    (empty : (core c i k).ifId.valid = false) : AllFetched c i := by
  have here := drained k le_rfl
  refine allFetched_of_fresh (n := k) ⟨?_, ?_, ?_, ?_⟩ ?_
  · simp [empty]
  · simp [here.idEx]
  · simp [here.exMem]
  · simp [here.memWb]
  · intro j lt early
    exact Bool.false_ne_true ((drained j lt.le).memWb.symm.trans early.2)

/-- A fetch of address `0` that meets no store returns this word. -/
def Answers (c : Core) (i : ℕ → CoreIn) (clocks : ℕ) (word : Word) : Prop :=
  ∀ k < clocks, (∀ j ≤ k, Drained (core c i j)) → (core c i k).pc = 0 → (i k).imemVld = true →
    (i k).imemRdata = word

variable {word : Word}

private theorem firstCommit_of_empty (bus : Released c i clocks) (inside : k + 7 < clocks)
    (answers : Answers c i clocks word) (drained : ∀ j ≤ k, Drained (core c i j))
    (empty : (core c i k).ifId.valid = false) (masked : ∀ irq, pends (core c i k) irq = false) :
    ∃ instr, FirstCommit c i (some ⟨(core c i k).pc, instr⟩) ∧
      ((core c i k).pc = 0 → instr = word) := by
  by_cases valid : (i k).imemVld = true
  · refine ⟨_, firstCommit_of_fetch bus (by omega) drained empty valid fun _ _ => masked _, ?_⟩
    intro zero
    exact answers k (by omega) drained zero valid
  · rw [Bool.not_eq_true] at valid
    obtain ⟨next, csr, pc, ifId, -, go⟩ :=
      clock_stall bus (by omega) (drained k le_rfl) (masked _) valid
    have later := drained_succ drained next
    have first := firstCommit_of_fetch bus (k := k + 1) (by omega) later
      ((congrArg IfId.valid ifId).trans empty) go fun _ _ => (pends_of_csr csr _).trans (masked _)
    rw [pc] at first
    refine ⟨_, first, ?_⟩
    intro zero
    exact answers (k + 1) (by omega) later (pc.trans zero) go

private theorem firstCommit_of_trap (bus : Released c i clocks) (inside : k + 8 < clocks)
    (answers : Answers c i clocks word) (drained : ∀ j ≤ k, Drained (core c i j))
    (trap : pends (core c i k) (i k).timerIrq = true) :
    AllFetched c i ∧ ∃ instr, FirstCommit c i (some ⟨(core c i k).csr.mtvec, instr⟩) ∧
      ((core c i k).csr.mtvec = 0 → instr = word) := by
  obtain ⟨next, empty, pc, masked⟩ := (drained k le_rfl).posedge_trap (bus.rst k (by omega))
    (bus.halt k (by omega)) trap
  have later := drained_succ drained next
  change (core c i (k + 1)).pc = _ at pc
  have first := firstCommit_of_empty bus (k := k + 1) (by omega) answers later empty masked
  rw [pc] at first
  exact ⟨allFetched_of_empty later empty, first⟩

end FirstFetch

section ColdStart

/-- What a released pipeline must hold to begin at address `0`: nothing, in IF/ID as in the
other registers, and the program counter `0`. An interrupt in the first three clocks replaces the
program counter by mtvec, and in the first of them it also empties IF/ID. -/
def ColdStart (c : Core) (timerIrq : ℕ → Bool) : Prop :=
  c.idEx.valid = false ∧ c.exMem.valid = false ∧ c.memWb.valid = false ∧
    if pends c (timerIrq 0) then c.csr.mtvec = 0
    else c.ifId.valid = false ∧
      if pends c (timerIrq 1) || pends c (timerIrq 2) then c.csr.mtvec = 0 else c.pc = 0

variable {word : Word}

private theorem starts_of_first {a instr : Word} (all : AllFetched c i)
    (first : FirstCommit c i (some ⟨a, instr⟩)) (found : a = 0 → instr = word) (w : Word) :
    FirstCommit c i (some ⟨0, w⟩) ∧ AllFetched c i ↔ a = 0 ∧ word = w := by
  constructor
  · rintro ⟨other, -⟩
    have same := firstCommit_unique first other
    simp only [Option.some.injEq, Fetch.mk.injEq] at same
    exact ⟨same.1, (found same.1).symm.trans same.2⟩
  · rintro ⟨rfl, rfl⟩
    rw [found rfl] at first
    exact ⟨first, all⟩

private theorem drained_zero (drained : Drained c) : ∀ j ≤ 0, Drained (core c i j) := by
  intro j le
  rw [Nat.le_zero.mp le]
  exact drained

private theorem starts_of_empty (bus : Released c i 12) (answers : Answers c i 12 word)
    (drained : Drained c) (valid : c.ifId.valid = false)
    (irq₀ : pends c (i 0).timerIrq = false) (w : Word) :
    FirstCommit c i (some ⟨0, w⟩) ∧ AllFetched c i ↔
      (if pends c (i 1).timerIrq || pends c (i 2).timerIrq then c.csr.mtvec = 0 else c.pc = 0) ∧
        word = w := by
  have drained₀ := drained_zero (i := i) drained
  obtain ⟨drained₁, csr₁, -, -, wait⟩ :=
    clock_fetch bus (k := 0) (by omega) drained valid irq₀ bus.fetch
  have later₁ := drained_succ drained₀ drained₁
  by_cases irq₁ : pends c (i 1).timerIrq = true
  · obtain ⟨all, instr, first, found⟩ :=
      firstCommit_of_trap bus (k := 1) (by omega) answers later₁ ((pends_of_csr csr₁ _).trans irq₁)
    rw [csr₁] at first found
    rw [irq₁, Bool.true_or, if_pos rfl]
    exact starts_of_first all first found w
  rw [Bool.not_eq_true] at irq₁
  obtain ⟨drained₂, csr₂, -⟩ :=
    clock_stall bus (k := 1) (by omega) drained₁ ((pends_of_csr csr₁ _).trans irq₁) wait
  have later₂ := drained_succ later₁ drained₂
  have csr : (core c i 2).csr = c.csr := csr₂.trans csr₁
  rw [irq₁, Bool.false_or]
  by_cases irq₂ : pends c (i 2).timerIrq = true
  · obtain ⟨all, instr, first, found⟩ :=
      firstCommit_of_trap bus (k := 2) (by omega) answers later₂ ((pends_of_csr csr _).trans irq₂)
    rw [csr] at first found
    rw [if_pos irq₂]
    exact starts_of_first all first found w
  rw [if_neg irq₂]
  rw [Bool.not_eq_true] at irq₂
  have calm : ∀ j < 3, pends c (i (0 + j)).timerIrq = false := by
    intro j lt
    rw [Nat.zero_add]
    obtain rfl | rfl | rfl : j = 0 ∨ j = 1 ∨ j = 2 := by omega
    · exact irq₀
    · exact irq₁
    · exact irq₂
  have first := firstCommit_of_fetch bus (k := 0) (by omega) drained₀ valid bus.fetch calm
  refine starts_of_first (allFetched_of_empty drained₀ valid) first ?_ w
  intro zero
  exact answers 0 (by omega) drained₀ zero bus.fetch

/-- The first commit is `w` at address `0`, and all that commits has been fetched since the
release, exactly from these pipelines. -/
theorem starts_iff (inert : Inert c) (bus : Released c i 12) (answers : Answers c i 12 word)
    (w : Word) :
    FirstCommit c i (some ⟨0, w⟩) ∧ AllFetched c i ↔
      ColdStart c (fun k => (i k).timerIrq) ∧ word = w := by
  by_cases old : c.idEx.valid = true ∨ c.exMem.valid = true ∨ c.memWb.valid = true
  · have stale := not_allFetched_of_valid bus (by omega) old
    constructor
    · exact fun starts => absurd starts.2 stale
    · rintro ⟨⟨ex, mem, wb, -⟩, -⟩
      simp [ex, mem, wb] at old
  simp only [not_or, Bool.not_eq_true] at old
  obtain ⟨ex, mem, wb⟩ := old
  have drained : Drained c := ⟨inert, ex, mem, wb⟩
  have drained₀ := drained_zero (i := i) drained
  simp only [ColdStart, ex, mem, wb, true_and]
  by_cases irq₀ : pends c (i 0).timerIrq = true
  · obtain ⟨all, instr, first, found⟩ :=
      firstCommit_of_trap bus (k := 0) (by omega) answers drained₀ irq₀
    rw [if_pos irq₀]
    exact starts_of_first all first found w
  rw [if_neg irq₀]
  rw [Bool.not_eq_true] at irq₀
  by_cases valid : c.ifId.valid = true
  · have stale := not_allFetched_of_ifId bus (by omega) drained irq₀ valid
    constructor
    · exact fun starts => absurd starts.2 stale
    · rintro ⟨⟨empty, -⟩, -⟩
      exact absurd (empty.symm.trans valid) Bool.false_ne_true
  rw [Bool.not_eq_true] at valid
  simp only [valid, true_and]
  exact starts_of_empty bus answers drained valid irq₀ w

end ColdStart

end Release

end RiscvSoc.Cpu.Fetched
