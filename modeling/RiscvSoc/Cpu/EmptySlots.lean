/- GID: RiscvSoc/Cpu/EmptySlots
   generality: G
   utility: main
   digest: An empty pipeline slot does nothing, in whatever stage and for as long as it lasts. -/

import RiscvSoc.Cpu.Fetched

set_option autoImplicit false
set_option relaxedAutoImplicit false

namespace RiscvSoc.Cpu.EmptySlots

open RiscvSoc.Clocked.Trajectory
open RiscvSoc.Cpu.Decoder
open RiscvSoc.Cpu.Datapath
open RiscvSoc.Cpu.Pipeline
open RiscvSoc.Cpu.PipelineEdge
open RiscvSoc.Cpu.Fetched

variable {s : Core}

/-- What the registers are sensitive to: the clock, and for pc also `rst` rising between two
clock edges. -/
inductive Event where
  | clock (i : CoreIn)
  | rstRise

def react (s : Core) : Event → Core
  | .clock i => s.posedge i
  | .rstRise => { s with pc := 0 }

/-- The core after `n` events, counted from a reset edge. -/
abbrev reached (csr : CsrFile) (regfile : RegFile) (events : ℕ → Event) : ℕ → Core :=
  trajectory react (Core.reset csr regfile) events

private theorem inert_react (inert : Inert s) (e : Event) : Inert (react s e) := by
  cases e with
  | clock i => exact inert_next inert i
  | rstRise => exact ⟨inert.ifId, inert.idEx, inert.decoded⟩

private theorem inert_trajectory (inert : Inert s) (events : ℕ → Event) (k : ℕ) :
    Inert (trajectory react s events k) := by
  apply trajectory_invariant Inert fun _ _ => True
  · exact inert
  · intro t e inert _
    exact inert_react inert e
  · intro _ _
    trivial

section Id

/-- ID has nothing to do: the word is zero, which names no operation and reads no register.
`priv_hazard` can only be up for an interrupt, and holds nothing then. -/
structure IdleId (s : Core) (timerIrq : Bool) : Prop where
  instr : s.ifId.instr = 0
  decoded : Core.idCtrlBus s.ifId.instr = { rdValid := true, csrOptype := 0b10 }
  rd : rd s.ifId.instr = 0
  src1 : (rs1Valid s.ifId.instr && rs1 s.ifId.instr != 0) = false
  src2 : (rs2Valid s.ifId.instr && rs2 s.ifId.instr != 0) = false
  privHazard : s.privHazard timerIrq = (s.irqTaken timerIrq && s.csrInFlight aMtvec)
  idStall : s.idStall timerIrq = false

private theorem idCtrlBus_zero :
    Core.idCtrlBus 0 = { rdValid := true, csrOptype := 0b10 } := by
  decide

private theorem idleId_of_empty (inert : Inert s) (empty : s.ifId.valid = false) (timerIrq : Bool) :
    IdleId s timerIrq := by
  have instr : s.ifId.instr = 0 := by rw [inert.ifId empty]
  have noPriv : isEcall 0 = false ∧ isEbreak 0 = false ∧ isMret 0 = false := by decide
  constructor
  · exact instr
  · rw [instr, idCtrlBus_zero]
  · rw [instr]
    rfl
  · rw [instr, show rs1 0 = 0 from rfl, bne_self_eq_false, Bool.and_false]
  · rw [instr, show rs2 0 = 0 from rfl, bne_self_eq_false, Bool.and_false]
  · rw [Core.privHazard, Core.privCsrAddr, instr, noPriv.1, noPriv.2.1, noPriv.2.2]
    rfl
  · rw [Core.idStall, empty, Bool.false_and, Bool.false_and]

end Id

section Ex

/-- None of the control bits of EX that act is up. -/
structure NoControl (x : IdEx) : Prop where
  takenBr : x.takenBr = false
  isJal : x.ctrl.op.isJal = false
  isJalr : x.ctrl.op.isJalr = false
  isEcall : x.ctrl.isEcall = false
  isEbreak : x.ctrl.isEbreak = false
  isMret : x.ctrl.isMret = false
  isLoad : x.ctrl.isLoad = false
  isSInstr : x.ctrl.isSInstr = false
  isCsr : x.ctrl.isCsr = false
  wrEn : x.wrEn = false

/-- EX has nothing to do: only a timer interrupt moves pc off its path, and only it touches the
CSRs in front of the commit of this edge. -/
structure IdleEx (s : Core) (i : CoreIn) : Prop where
  control : NoControl s.idEx
  exFlush : s.exFlush i.timerIrq = s.irqTaken i.timerIrq
  nextPc : s.nextPc i.timerIrq = if s.irqTaken i.timerIrq then s.csr.mtvec else s.pc + 4
  trapEntry : s.trapEntry i = (!i.halt && !s.memWait i && s.irqTaken i.timerIrq)
  mretCommit : s.mretCommit i = false
  pc : s.irqTaken i.timerIrq = false → (s.posedge i).pc =
    if i.rst then 0
    else if i.halt || s.memWait i || s.frontStall i then s.pc
    else s.pc + 4
  csr : s.irqTaken i.timerIrq = false → (s.posedge i).csr =
    if i.halt then s.csr else s.memWb.commitCsr s.csr i.timerIrq

private theorem noControl_of_empty (inert : Inert s) (empty : s.idEx.valid = false) :
    NoControl s.idEx := by
  obtain ⟨rd, -, ctrl⟩ := inert.idEx empty
  have wrEn : s.idEx.wrEn = false := by rw [IdEx.wrEn, if_pos rd]
  have takenBr : s.idEx.takenBr = false := by
    rw [IdEx.takenBr, ctrl]
    rfl
  refine ⟨takenBr, ?_, ?_, ?_, ?_, ?_, ?_, ?_, ?_, wrEn⟩ <;> rw [ctrl]

private theorem idleEx_of_empty (inert : Inert s) (empty : s.idEx.valid = false) (i : CoreIn) :
    IdleEx s i := by
  have control := noControl_of_empty inert empty
  have flush : s.exFlush i.timerIrq = s.irqTaken i.timerIrq := by
    rw [Core.exFlush, (inert.bubble empty).1, Bool.false_or]
  have trap : s.trapEntry i = (!i.halt && !s.memWait i && s.irqTaken i.timerIrq) := by
    rw [Core.trapEntry, control.isEcall, control.isEbreak, Bool.or_self, Bool.false_or]
  have mret : s.mretCommit i = false := by rw [Core.mretCommit, control.isMret, Bool.and_false]
  have nextPc : s.nextPc i.timerIrq =
      if s.irqTaken i.timerIrq then s.csr.mtvec else s.pc + 4 := by
    simp [Core.nextPc, control.takenBr, control.isJal, control.isJalr, control.isEcall,
      control.isEbreak, control.isMret]
  constructor
  · exact control
  · exact flush
  · exact nextPc
  · exact trap
  · exact mret
  · intro calm
    rw [calm, if_neg Bool.false_ne_true] at nextPc
    simp only [Core.posedge, flush, calm, nextPc]
    cases i.rst <;> cases i.halt <;> cases s.memWait i <;> cases s.frontStall i <;> rfl
  · intro calm
    rw [calm, Bool.and_false] at trap
    simp only [Core.posedge, Core.nextCsr, trap, mret, Bool.false_eq_true, if_false]

end Ex

section Back

/-- MEM has nothing to do: no strobe, and so nothing to wait for. -/
structure IdleMem (s : Core) (i : CoreIn) : Prop where
  we : s.dataPort.we = false
  re : s.dataPort.re = false
  memWait : s.memWait i = false

/-- WB has nothing to do: no register changes on this edge, and no CSR but by a trap or MRET. -/
structure IdleWb (s : Core) (i : CoreIn) : Prop where
  regfile : (s.posedge i).regfile = s.regfile
  commitCsr : s.memWb.commitCsr s.csr i.timerIrq = s.csr
  csr : s.trapEntry i = false → s.mretCommit i = false → (s.posedge i).csr = s.csr

private theorem idleMem_of_empty (empty : s.exMem.valid = false) (i : CoreIn) : IdleMem s i := by
  have we : s.dataPort.we = false := by
    change (s.exMem.isSInstr && s.exMem.valid) = false
    rw [empty, Bool.and_false]
  have re : s.dataPort.re = false := by
    change (s.exMem.isLoad && s.exMem.valid) = false
    rw [empty, Bool.and_false]
  refine ⟨we, re, ?_⟩
  rw [Core.memWait, DataPort.req, we, re, Bool.or_self, Bool.false_and]

private theorem idleWb_of_empty (empty : s.memWb.valid = false) (i : CoreIn) : IdleWb s i := by
  have commitCsr : s.memWb.commitCsr s.csr i.timerIrq = s.csr := by
    rw [MemWb.commitCsr, empty, Bool.and_false, if_neg Bool.false_ne_true]
  refine ⟨?_, commitCsr, ?_⟩
  · simp only [Core.posedge, MemWb.commitReg, empty, Bool.and_false, Bool.false_eq_true, if_false,
      ite_self]
  · intro trap mret
    simp only [Core.posedge, Core.nextCsr, trap, mret, commitCsr, Bool.false_eq_true, if_false,
      ite_self]

end Back

section Follow

/-- Where the slot that we follow is. -/
inductive Stage where
  | id
  | ex
  | mem
  | wb
  | gone
  deriving DecidableEq

/-- The slot goes where `Core.posedge` moves what it holds. A reset ends it, and in ID a flush. -/
def Stage.next (p : Stage) (s : Core) (i : CoreIn) : Stage :=
  if i.rst then .gone
  else if i.halt then p
  else match p with
    | .id =>
      if s.memWait i then .id
      else if s.exFlush i.timerIrq then .gone
      else if s.frontStall i then .id
      else .ex
    | .ex => if s.memWait i then .ex else .mem
    | .mem => if s.memWait i then .mem else .wb
    | .wb => .gone
    | .gone => .gone

def Stage.react (p : Stage) (s : Core) : Event → Stage
  | .clock i => p.next s i
  | .rstRise => p

/-- The stage at which the slot is after `k` events, from stage `p` on. -/
def stageAfter (s : Core) (events : ℕ → Event) (p : Stage) : ℕ → Stage
  | 0 => p
  | k + 1 => (stageAfter s events p k).react (trajectory react s events k) (events k)

def Empty (s : Core) : Stage → Prop
  | .id => s.ifId.valid = false
  | .ex => s.idEx.valid = false
  | .mem => s.exMem.valid = false
  | .wb => s.memWb.valid = false
  | .gone => True

/-- The slot does nothing on a clock edge with the inputs `i`. -/
def Idle (s : Core) (i : CoreIn) : Stage → Prop
  | .id => IdleId s i.timerIrq
  | .ex => IdleEx s i
  | .mem => IdleMem s i
  | .wb => IdleWb s i
  | .gone => True

variable {p : Stage}

private theorem idle_of_empty (inert : Inert s) (empty : Empty s p) (i : CoreIn) : Idle s i p := by
  cases p with
  | id => exact idleId_of_empty inert empty i.timerIrq
  | ex => exact idleEx_of_empty inert empty i
  | mem => exact idleMem_of_empty empty i
  | wb => exact idleWb_of_empty empty i
  | gone => trivial

private theorem empty_posedge (empty : Empty s p) (i : CoreIn) :
    Empty (s.posedge i) (p.next s i) := by
  by_cases rst : i.rst = true
  · simp only [Stage.next, rst, if_true]
    trivial
  rw [Bool.not_eq_true] at rst
  refine posedge_rule rst fun t edge => ?_
  cases edge with
  | halted halt =>
    simp only [Stage.next, rst, halt, if_true, Bool.false_eq_true, if_false]
    exact empty
  | waiting run wait =>
    cases p with
    | id | ex | mem =>
      simp only [Stage.next, rst, run, wait, if_true, Bool.false_eq_true, if_false]
      exact empty
    | wb | gone =>
      simp only [Stage.next, rst, run, Bool.false_eq_true, if_false]
      trivial
  | flushed run ready flush =>
    cases p with
    | id | wb | gone =>
      simp only [Stage.next, rst, run, ready, flush, if_true, Bool.false_eq_true, if_false]
      trivial
    | ex | mem =>
      simp only [Stage.next, rst, run, ready, Bool.false_eq_true, if_false]
      exact empty
  | stalled run ready straight stall =>
    cases p with
    | id | ex | mem =>
      simp only [Stage.next, rst, run, ready, straight, stall, if_true, Bool.false_eq_true,
        if_false]
      exact empty
    | wb | gone =>
      simp only [Stage.next, rst, run, Bool.false_eq_true, if_false]
      trivial
  | advanced run ready straight go =>
    cases p with
    | id | ex | mem =>
      simp only [Stage.next, rst, run, ready, straight, go, Bool.false_eq_true, if_false]
      exact empty
    | wb | gone =>
      simp only [Stage.next, rst, run, Bool.false_eq_true, if_false]
      trivial

private theorem empty_react (empty : Empty s p) (e : Event) : Empty (react s e) (p.react s e) := by
  cases e with
  | clock i => exact empty_posedge empty i
  | rstRise => cases p <;> exact empty

private theorem empty_stageAfter (empty : Empty s p) (events : ℕ → Event) (k : ℕ) :
    Empty (trajectory react s events k) (stageAfter s events p k) := by
  induction k with
  | zero => exact empty
  | succ k ih => exact empty_react ih (events k)

end Follow

/-- What the valid bits of IF/ID and ID/EX say about the rest of the registers. -/
structure Clear (s : Core) : Prop where
  ifId : s.ifId.valid = false → s.ifId.instr = 0
  idEx : s.idEx.valid = false → NoControl s.idEx

/-- Whatever the memories, `halt`, `timer_irq` and `rst` have done so far, the two front registers
are clear when empty, and an empty slot of any stage does nothing from there on, whatever they do
next. -/
theorem empty_slots_inert (csr : CsrFile) (regfile : RegFile) (past : ℕ → Event) (n : ℕ) :
    Clear (reached csr regfile past n) ∧
      ∀ p, Empty (reached csr regfile past n) p →
        ∀ (future : ℕ → Event) (k : ℕ) (i : CoreIn),
          Idle (trajectory react (reached csr regfile past n) future k) i
            (stageAfter (reached csr regfile past n) future p k) := by
  have inert : Inert (reached csr regfile past n) :=
    inert_trajectory (inert_reset csr regfile) past n
  refine ⟨⟨?_, ?_⟩, ?_⟩
  · intro empty
    rw [inert.ifId empty]
  · intro empty
    exact noControl_of_empty inert empty
  · intro p empty future k i
    apply idle_of_empty
    · exact inert_trajectory inert future k
    · exact empty_stageAfter empty future k

/-- The empty IF/ID of a reset, in a core that fetches without waiting. -/
example :
    (List.range 5).map
      (stageAfter (Core.reset ⟨0, 0, 0, 0, 0, 0, 0, 0⟩ fun _ => 0)
        (fun _ => .clock { imemRdata := 0, imemVld := true, ldData := 0, dmemVld := true }) .id) =
      [.id, .ex, .mem, .wb, .gone] := by
  decide +kernel

end RiscvSoc.Cpu.EmptySlots
