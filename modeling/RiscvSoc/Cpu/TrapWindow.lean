/- GID: RiscvSoc/Cpu/TrapWindow
   generality: G
   utility: main
   digest: From a trap entry to the return: the instruction in EX, older ones, the handler. -/

import RiscvSoc.Cpu.Commit
import RiscvSoc.Cpu.InterruptEntry

set_option autoImplicit false
set_option relaxedAutoImplicit false

namespace RiscvSoc.Cpu.TrapWindow

open RiscvSoc.Clocked.Trajectory
open RiscvSoc.Cpu.Decoder
open RiscvSoc.Cpu.Datapath
open RiscvSoc.Cpu.Pipeline
open RiscvSoc.Cpu.PipelineEdge
open RiscvSoc.Cpu.CsrOrder
open RiscvSoc.Cpu.Commit
open RiscvSoc.Cpu.InterruptEntry

/-- Where the instruction that was in EX at a trap entry has got to. Everything in front of it
was fetched after the redirect. -/
inductive Slot where
  | mem
  | wb
  | gone
  deriving DecidableEq

def Slot.advance (wait : Bool) : Slot → Slot
  | .mem => if wait then .mem else .wb
  | .wb => .gone
  | .gone => .gone

def Slot.next (p : Slot) (s : Core) (i : CoreIn) : Slot :=
  if i.halt then p else p.advance (s.memWait i)

/-- The slot holds `x`, until it has left. -/
def Holds (x : ExMem) (s : Core) : Slot → Prop
  | .mem => s.exMem = x
  | .wb => ∃ ldData, s.memWb = x.toMemWb ldData
  | .gone => True

/-- A CSR instruction not younger than the slot can still change `a`. -/
def olderAlters (s : Core) (a : CsrAddr) : Slot → Bool
  | .mem => altersBehindEx s a
  | .wb => s.memWb.altersCsr a
  | .gone => false

section Edge

variable {s : Core} {i : CoreIn} {x : ExMem} {p : Slot} {a : CsrAddr}

private theorem holds_posedge (inv : Holds x s p) (noRst : i.rst = false) :
    Holds x (s.posedge i) (p.next s i) := by
  refine posedge_rule noRst fun t edge => ?_
  cases edge with
  | halted halt =>
    rw [Slot.next, halt, if_pos rfl]
    exact inv
  | waiting run wait =>
    rw [Slot.next, run, if_neg Bool.false_ne_true]
    cases p with
    | mem =>
      rw [Slot.advance, wait, if_pos rfl]
      exact inv
    | wb => trivial
    | gone => trivial
  | flushed run ready | stalled run ready | advanced run ready =>
    rw [Slot.next, run, if_neg Bool.false_ne_true]
    cases p with
    | mem =>
      rw [Slot.advance, ready, if_neg Bool.false_ne_true]
      exact ⟨i.ldData, by rw [← show s.exMem = x from inv]⟩
    | wb => trivial
    | gone => trivial

private theorem olderAlters_posedge (inv : olderAlters s a p = false) (noRst : i.rst = false) :
    olderAlters (s.posedge i) a (p.next s i) = false := by
  refine posedge_rule noRst fun t edge => ?_
  cases edge with
  | halted halt =>
    rw [Slot.next, halt, if_pos rfl]
    exact inv
  | waiting run wait =>
    rw [Slot.next, run, if_neg Bool.false_ne_true]
    cases p with
    | mem =>
      rw [Slot.advance, wait, if_pos rfl]
      simp only [olderAlters, altersBehindEx, Bool.or_eq_false_iff] at inv ⊢
      exact ⟨inv.1, rfl⟩
    | wb => rfl
    | gone => rfl
  | flushed run ready | stalled run ready | advanced run ready =>
    rw [Slot.next, run, if_neg Bool.false_ne_true]
    cases p with
    | mem =>
      rw [Slot.advance, ready, if_neg Bool.false_ne_true]
      simp only [olderAlters, altersBehindEx, Bool.or_eq_false_iff] at inv
      exact inv.1
    | wb => rfl
    | gone => rfl

/-- What an edge does to mstatus when the instruction in WB leaves it alone. -/
theorem mstatus_posedge (quiet : i.halt = false → s.memWb.altersCsr aMstatus = false) :
    (s.posedge i).csr.mstatus =
      if s.trapEntry i then stackMie s.csr.mstatus s.csr.mstatus
      else if s.mretCommit i then unstackMie s.csr.mstatus s.csr.mstatus
      else s.csr.mstatus := by
  have base : (if i.halt then s.csr else s.memWb.commitCsr s.csr i.timerIrq).mstatus =
      s.csr.mstatus := by
    split
    · rfl
    · rename_i run
      exact commitCsr_read_unaltered (b := aMstatus) (by decide)
        (quiet (Bool.eq_false_iff.mpr run))
  simp only [Core.posedge, Core.nextCsr]
  split
  · rw [base]
  split
  · rw [base]
  · exact base

private theorem mepc_posedge (quiet : i.halt = false → s.memWb.altersCsr aMepc = false) :
    (s.posedge i).csr.mepc = if s.trapEntry i then s.idEx.pc else s.csr.mepc := by
  have base : (if i.halt then s.csr else s.memWb.commitCsr s.csr i.timerIrq).mepc =
      s.csr.mepc := by
    split
    · rfl
    · rename_i run
      exact commitCsr_read_unaltered (b := aMepc) (by decide) (quiet (Bool.eq_false_iff.mpr run))
  simp only [Core.posedge, Core.nextCsr]
  split
  · rfl
  split
  · exact base
  · exact base

theorem stackMie_mie (old new : Word) : (stackMie old new).getLsbD 3 = false := by
  simp only [stackMie, BitVec.getLsbD_append]
  rfl

private theorem stackMie_mpie (old new : Word) : (stackMie old new).getLsbD 7 = old.getLsbD 3 := by
  simp only [stackMie, BitVec.getLsbD_append, BitVec.getLsbD_extractLsb']
  rfl

/-- A trap entry masks interrupts whatever WB writes on the same edge. -/
theorem mie_of_trapEntry (entry : s.trapEntry i = true) :
    (s.posedge i).csr.mstatus.getLsbD 3 = false := by
  simp only [Core.posedge, Core.nextCsr, entry, if_true, stackMie_mie]

private theorem irqTaken_masked (masked : s.csr.mstatus.getLsbD 3 = false) (irq : Bool) :
    s.irqTaken irq = false := by
  simp only [Core.irqTaken, masked, Bool.false_and]

end Edge

section Runs

variable {csr : CsrFile} {regfile : RegFile} {input : ℕ → CoreIn}

/-- The slot of the instruction that edge `n` took out of EX, `k` clocks later. -/
def slotAfter (csr : CsrFile) (regfile : RegFile) (input : ℕ → CoreIn) (n : ℕ) : ℕ → Slot
  | 0 => .mem
  | k + 1 =>
    (slotAfter csr regfile input n k).next (after csr regfile input (n + 1 + k)) (input (n + 1 + k))

private theorem moved_of_trapEntry {s : Core} {i : CoreIn} (noRst : i.rst = false)
    (entry : s.trapEntry i = true) :
    (s.posedge i).exMem = s.idEx.toExMem ∧ (s.posedge i).memWb = s.exMem.toMemWb i.ldData := by
  simp only [Core.trapEntry, Bool.and_eq_true, Bool.not_eq_true'] at entry
  simp [Core.posedge, noRst, entry.1]

private theorem accepted_trapEntry {s : Core} {i : CoreIn} (taken : accepted s i = true) :
    s.trapEntry i = true := by
  simp only [accepted, Bool.and_eq_true] at taken
  simp only [Core.trapEntry, taken, Bool.and_self, Bool.or_true]

private theorem holds_after (noRst : ∀ n, (input n).rst = false) {n : ℕ}
    (entry : (after csr regfile input n).trapEntry (input n) = true) (k : ℕ) :
    Holds (after csr regfile input n).idEx.toExMem (after csr regfile input (n + 1 + k))
      (slotAfter csr regfile input n k) := by
  induction k with
  | zero => exact (moved_of_trapEntry (noRst n) entry).1
  | succ k ih => exact holds_posedge ih (noRst _)

private theorem olderAlters_after (noRst : ∀ n, (input n).rst = false) {n : ℕ} {a : CsrAddr}
    (entry : (after csr regfile input n).trapEntry (input n) = true)
    (ex : ((after csr regfile input n).idEx.toExMem.toMemWb 0).altersCsr a = false)
    (mem : ((after csr regfile input n).exMem.toMemWb 0).altersCsr a = false) (k : ℕ) :
    olderAlters (after csr regfile input (n + 1 + k)) a (slotAfter csr regfile input n k) =
      false := by
  induction k with
  | zero =>
    obtain ⟨exMem, memWb⟩ := moved_of_trapEntry (noRst n) entry
    change altersBehindEx ((after csr regfile input n).posedge (input n)) a = false
    rw [altersBehindEx, exMem, memWb, ex, Bool.false_or]
    exact mem
  | succ k ih => exact olderAlters_posedge ih (noRst _)

/-- An MRET, or a change of mstatus performed by an instruction fetched after the redirect. -/
def closes (p : Slot) (s : Core) (i : CoreIn) : Bool :=
  s.mretCommit i || (p == .gone && !i.halt && s.memWb.altersCsr aMstatus)

private theorem wb_quiet {s : Core} {a : CsrAddr} {p : Slot} (older : olderAlters s a p = false)
    (handler : p = .gone → s.memWb.altersCsr a = false) : s.memWb.altersCsr a = false := by
  cases p with
  | mem =>
    rw [olderAlters, altersBehindEx, Bool.or_eq_false_iff] at older
    exact older.2
  | wb => exact older
  | gone => exact handler rfl

/-- A trap that finds no change of mstatus under way is not interrupted before its handler
returns or writes mstatus, and MPIE keeps the MIE of the instructions before it. -/
theorem handler_masks_interrupts (csr : CsrFile) (regfile : RegFile) (input : ℕ → CoreIn)
    (noRst : ∀ n, (input n).rst = false) (n : ℕ)
    (entry : (after csr regfile input n).trapEntry (input n) = true)
    (ex : ((after csr regfile input n).idEx.toExMem.toMemWb 0).altersCsr aMstatus = false)
    (behindEx : altersBehindEx (after csr regfile input n) aMstatus = false) (k : ℕ)
    (window : ∀ j < k, closes (slotAfter csr regfile input n j)
      (after csr regfile input (n + 1 + j)) (input (n + 1 + j)) = false) :
    (after csr regfile input (n + 1 + k)).csr.mstatus.getLsbD 3 = false ∧
    accepted (after csr regfile input (n + 1 + k)) (input (n + 1 + k)) = false ∧
    ((∀ j < k, (after csr regfile input (n + 1 + j)).trapEntry (input (n + 1 + j)) = false) →
      (after csr regfile input (n + 1 + k)).csr.mstatus.getLsbD 7 =
        (settled (after csr regfile input n) (input n).timerIrq).mstatus.getLsbD 3) := by
  have behind := behindEx
  rw [altersBehindEx, Bool.or_eq_false_iff] at behind
  have stacked : (after csr regfile input (n + 1 + k)).csr.mstatus.getLsbD 3 = false ∧
      ((∀ j < k, (after csr regfile input (n + 1 + j)).trapEntry (input (n + 1 + j)) = false) →
        (after csr regfile input (n + 1 + k)).csr.mstatus.getLsbD 7 =
          (after csr regfile input n).csr.mstatus.getLsbD 3) := by
    induction k with
    | zero =>
      have mstatus := mstatus_posedge (i := input n) fun _ => behind.2
      rw [entry, if_pos rfl] at mstatus
      change ((after csr regfile input n).posedge (input n)).csr.mstatus.getLsbD 3 = false ∧
        (_ → ((after csr regfile input n).posedge (input n)).csr.mstatus.getLsbD 7 = _)
      rw [mstatus]
      exact ⟨stackMie_mie _ _, fun _ => stackMie_mpie _ _⟩
    | succ k ih =>
      obtain ⟨mie, mpie⟩ := ih fun j hj => window j (by omega)
      have stays := window k (by omega)
      simp only [closes, Bool.or_eq_false_iff, Bool.and_eq_false_iff, beq_eq_false_iff_ne,
        Bool.not_eq_false'] at stays
      have quiet : (input (n + 1 + k)).halt = false →
          (after csr regfile input (n + 1 + k)).memWb.altersCsr aMstatus = false := by
        intro run
        apply wb_quiet (olderAlters_after noRst entry ex behind.1 k)
        intro gone
        rw [run] at stays
        exact stays.2.resolve_left (by simp [gone])
      have mstatus := mstatus_posedge quiet
      rw [stays.1, if_neg Bool.false_ne_true] at mstatus
      change ((after csr regfile input (n + 1 + k)).posedge (input (n + 1 + k))).csr.mstatus.getLsbD
          3 = false ∧ (_ → ((after csr regfile input (n + 1 + k)).posedge
            (input (n + 1 + k))).csr.mstatus.getLsbD 7 = _)
      rw [mstatus]
      constructor
      · split
        · exact stackMie_mie _ _
        · exact mie
      · intro noTrap
        rw [noTrap k (by omega), if_neg Bool.false_ne_true]
        exact mpie fun j hj => noTrap j (by omega)
  refine ⟨stacked.1, ?_, ?_⟩
  · rw [accepted, irqTaken_masked stacked.1, Bool.and_false]
  · intro noTrap
    have kept := settled_read_unaltered (a := aMstatus) (input n).timerIrq (by decide) behindEx
    rw [stacked.2 noTrap]
    exact congrArg (·.getLsbD 3) kept.symm

/-- `csrrsi x0, mstatus, 8; ecall`, then `addi x0, x0, 0` everywhere. -/
def enableThenEcall : Word → Word := fun pc =>
  if pc = 0 then 0x30046073 else if pc = 4 then 0x00000073 else 0x00000013

def enableThenEcallInput : ℕ → CoreIn :=
  programInput enableThenEcall (fun _ => true) { enabledCsr with mstatus := 0 } fun _ => 0

/-- The write of mstatus that precedes `ecall` lands after the trap has stacked MIE: the handler
runs with MIE set and is interrupted, and MPIE has lost the program's MIE. -/
theorem handler_reinterrupted :
    let core := after { enabledCsr with mstatus := 0 } (fun _ => 0) enableThenEcallInput
    (core 3).trapEntry (enableThenEcallInput 3) = true ∧
    closes .mem (core 4) (enableThenEcallInput 4) = false ∧
    (core 5).csr.mstatus = 0x8 ∧ accepted (core 5) (enableThenEcallInput 5) = true := by
  decide +kernel

/-- `ecall` on its own, interrupts enabled and the timer asking from then on. -/
def ecallInput : ℕ → CoreIn :=
  programInput (fun pc => if pc = 0 then 0x00000073 else 0x00000013) (fun n => decide (2 < n))
    enabledCsr fun _ => 0

theorem handler_masks_interrupts_ecall :
    (after enabledCsr (fun _ => 0) ecallInput 8).csr.mstatus.getLsbD 3 = false ∧
    accepted (after enabledCsr (fun _ => 0) ecallInput 8) (ecallInput 8) = false ∧
    (after enabledCsr (fun _ => 0) ecallInput 8).csr.mstatus.getLsbD 7 = true := by
  have masked := handler_masks_interrupts enabledCsr (fun _ => 0) ecallInput (fun _ => rfl) 2
    (by decide +kernel) (by decide +kernel) (by decide +kernel) 5 (by decide +kernel)
  exact ⟨masked.1, masked.2.1, (masked.2.2 (by decide +kernel)).trans (by decide +kernel)⟩

/-- The tracked instruction commits nothing on this edge. -/
structure Cancelled (s : Core) (i : CoreIn) (p : Slot) : Prop where
  store : p = .mem → storeLeaving s i = []
  regWrite : p = .wb → regWrite s i = []
  csrWrite : p = .wb → csrWrite s i = []

/-- The instruction in EX writes nothing. The one in MEM changes neither mepc nor mstatus, and
takes no register from the CSRs the trap writes; the one in WB does not clear MIE. -/
structure Harmless (s : Core) : Prop where
  wrEn : s.idEx.wrEn = false
  isCsr : s.idEx.ctrl.isCsr = false
  isSInstr : s.idEx.ctrl.isSInstr = false
  mepc : (s.exMem.toMemWb 0).altersCsr aMepc = false
  mstatus : (s.exMem.toMemWb 0).altersCsr aMstatus = false
  reads : ∀ a, a = aMepc ∨ a = aMcause ∨ a = aMstatus → s.exMem.wrEn = true →
    s.exMem.writesCsr a = false
  mie : (settledWb s true).mstatus.getLsbD 3 = true

private theorem cancelled_of_holds {s : Core} {i : CoreIn} {p : Slot} {x : IdEx}
    (held : Holds x.toExMem s p) (wrEn : x.wrEn = false) (isCsr : x.ctrl.isCsr = false)
    (isSInstr : x.ctrl.isSInstr = false) : Cancelled s i p := by
  refine ⟨?_, ?_, ?_⟩
  · rintro rfl
    have exMem : s.exMem = x.toExMem := held
    simp [storeLeaving, DataPort.store, Core.dataPort, ExMem.dataPort, exMem, IdEx.toExMem,
      isSInstr]
  · rintro rfl
    obtain ⟨ldData, memWb⟩ := held
    simp [regWrite, memWb, ExMem.toMemWb, IdEx.toExMem, wrEn]
  · rintro rfl
    obtain ⟨ldData, memWb⟩ := held
    simp [csrWrite, memWb, ExMem.toMemWb, IdEx.toExMem, isCsr]

section Older

variable {s : Core} {i j : CoreIn} {x : MemWb} {c : CsrFile} {a : CsrAddr}

/-- The instructions in WB and MEM at the acceptance are through, once each: the store left with
the edge of the acceptance, `t` has the registers and CSRs that the two leave one after the other,
but for what the trap writes, and neither is in `t` any more. -/
structure OlderCommitted (s t : Core) (i j : CoreIn) : Prop where
  store : storeLeaving s i = DataPort.store s.dataPort
  regfile : t.regfile = (s.exMem.toMemWb i.ldData).commitReg (settledWb s i.timerIrq) j.timerIrq
    (s.memWb.commitReg s.csr i.timerIrq s.regfile)
  csr : ∀ a, a ≠ aMepc → a ≠ aMcause → a ≠ aMstatus → t.csr.read a =
    ((s.exMem.toMemWb i.ldData).commitCsr (settledWb s i.timerIrq) j.timerIrq).read a
  mstatus : t.csr.mstatus = stackMie (settled s true).mstatus (settled s true).mstatus
  gone : t.exMem = s.idEx.toExMem ∧ t.memWb = {} ∨
    ∃ ldData, t.memWb = s.idEx.toExMem.toMemWb ldData

private theorem csrRdata_trap (pc cause status : Word) (irq : Bool) (notMepc : a ≠ aMepc)
    (notMcause : a ≠ aMcause) (notMstatus : a ≠ aMstatus) :
    csrRdata { c with mepc := pc, mcause := cause, mstatus := status } irq a =
      csrRdata c irq a :=
  read_trap (c := { c with mip := csrMipRead c.mip irq }) pc cause status notMepc notMcause
    notMstatus

private theorem commitCsr_read_trap (pc cause status : Word) (irq : Bool) (notMepc : a ≠ aMepc)
    (notMcause : a ≠ aMcause) (notMstatus : a ≠ aMstatus) :
    (x.commitCsr { c with mepc := pc, mcause := cause, mstatus := status } irq).read a =
      (x.commitCsr c irq).read a := by
  cases writes : x.writesCsr a with
  | false =>
    rw [commitCsr_read_other writes, commitCsr_read_other writes]
    exact read_trap pc cause status notMepc notMcause notMstatus
  | true =>
    simp only [MemWb.writesCsr, Bool.and_eq_true, beq_iff_eq] at writes
    obtain ⟨⟨valid, isCsr⟩, rfl⟩ := writes
    simp only [MemWb.commitCsr, isCsr, valid, Bool.and_self, if_true, MemWb.csrNewVal,
      csrRdata_trap pc cause status irq notMepc notMcause notMstatus]
    exact read_write_same

private theorem commitReg_trap (pc cause status : Word) (irq : Bool) (r : RegFile)
    (reads : ∀ a, a = aMepc ∨ a = aMcause ∨ a = aMstatus → x.wrEn = true → x.writesCsr a = false) :
    x.commitReg { c with mepc := pc, mcause := cause, mstatus := status } irq r =
      x.commitReg c irq r := by
  rw [MemWb.commitReg, MemWb.commitReg]
  split
  · rename_i commits
    simp only [Bool.and_eq_true] at commits
    obtain ⟨⟨wrEn, -⟩, valid⟩ := commits
    rw [MemWb.wbData, MemWb.wbData]
    split
    · rename_i isCsr
      have other : ∀ a, a = aMepc ∨ a = aMcause ∨ a = aMstatus → x.csrAddr ≠ a := by
        intro a named same
        have quiet := reads a named wrEn
        simp [MemWb.writesCsr, valid, isCsr, same] at quiet
      rw [csrRdata_trap pc cause status irq (other _ (.inl rfl)) (other _ (.inr (.inl rfl)))
        (other _ (.inr (.inr rfl)))]
    · rfl
  · rfl

private theorem csr_of_accepted (taken : accepted s i = true) :
    (s.posedge i).csr =
      { settledWb s i.timerIrq with
        mepc := s.idEx.pc
        mcause := 0x80000007
        mstatus := stackMie s.csr.mstatus (settledWb s i.timerIrq).mstatus } := by
  have entry := accepted_trapEntry taken
  simp only [accepted, Bool.and_eq_true, Bool.not_eq_true'] at taken
  simp only [Core.posedge, Core.nextCsr, entry, taken, settledWb, Bool.false_eq_true, if_false,
    if_true]

private theorem stackMie_congr {old old' : Word} (new : Word)
    (same : old.getLsbD 3 = old'.getLsbD 3) : stackMie old new = stackMie old' new := by
  have bit : old.extractLsb' 3 1 = old'.extractLsb' 3 1 := by
    ext k hk
    obtain rfl : k = 0 := by omega
    simpa using same
  rw [stackMie, stackMie, bit]

private theorem timerIrq_of_accepted (taken : accepted s i = true) : i.timerIrq = true := by
  simp only [accepted, Core.irqTaken, Bool.and_eq_true] at taken
  exact taken.2.1.2

private theorem settled_mstatus (harmless : Harmless s) :
    (settled s true).mstatus = (settledWb s true).mstatus :=
  commitCsr_read_unaltered (b := aMstatus) (by decide) harmless.mstatus

/-- The first edge after the acceptance on which the core is not halted ends the older
instructions: EX is empty, so that it resolves nothing. -/
private theorem olderCommitted_posedge (go : i.rst = false) (next : j.rst = false)
    (taken : accepted s i = true) (harmless : Harmless s) (run : j.halt = false) :
    OlderCommitted s ((s.posedge i).posedge j) i j := by
  obtain ⟨exMem, memWb⟩ := moved_of_trapEntry go (accepted_trapEntry taken)
  have irq := timerIrq_of_accepted taken
  have csr := csr_of_accepted taken
  have masked := mie_of_trapEntry (accepted_trapEntry taken)
  have enabled := (enables_of_accepted taken).2
  simp only [accepted, Bool.and_eq_true, Bool.not_eq_true'] at taken
  have flush : s.exFlush i.timerIrq = true := by rw [Core.exFlush, taken.2, Bool.or_true]
  have idEx : (s.posedge i).idEx = {} := by simp [Core.posedge, go, taken.1, flush]
  have regfile : (s.posedge i).regfile = s.memWb.commitReg s.csr i.timerIrq s.regfile := by
    simp [Core.posedge, taken.1]
  have commits : ((s.posedge i).posedge j).csr =
      (s.posedge i).memWb.commitCsr (s.posedge i).csr j.timerIrq := by
    refine nextCsr_straight run ?_
    rw [Core.exFlush, irqTaken_masked masked, idEx]
    rfl
  refine ⟨?_, ?_, ?_, ?_, ?_⟩
  · simp [storeLeaving, taken.1]
  · have commitReg : ((s.posedge i).posedge j).regfile =
        (s.posedge i).memWb.commitReg (s.posedge i).csr j.timerIrq (s.posedge i).regfile := by
      simp [Core.posedge, run]
    rw [commitReg, memWb, csr, regfile]
    exact commitReg_trap _ _ _ _ _ harmless.reads
  · intro a notMepc notMcause notMstatus
    rw [commits, memWb, csr]
    exact commitCsr_read_trap _ _ _ _ notMepc notMcause notMstatus
  · have kept : ((s.posedge i).posedge j).csr.mstatus = (s.posedge i).csr.mstatus := by
      rw [commits, memWb]
      exact commitCsr_read_unaltered (b := aMstatus) (by decide) harmless.mstatus
    rw [kept, csr, irq, settled_mstatus harmless]
    exact stackMie_congr _ (enabled.trans harmless.mie.symm)
  · have held : Holds s.idEx.toExMem ((s.posedge i).posedge j) (Slot.mem.next (s.posedge i) j) :=
      holds_posedge exMem next
    rw [Slot.next, run, if_neg Bool.false_ne_true] at held
    cases wait : (s.posedge i).memWait j with
    | false =>
      rw [wait] at held
      exact .inr held
    | true =>
      rw [wait] at held
      refine .inl ⟨held, ?_⟩
      change (if j.rst then _ else if j.halt then _ else if (s.posedge i).memWait j then _
        else _) = _
      simp [next, run, wait]

end Older

private theorem after_halted (noRst : ∀ n, (input n).rst = false) (n : ℕ) {d : ℕ}
    (halted : ∀ k < d, (input (n + k)).halt = true) :
    after csr regfile input (n + d) = after csr regfile input n := by
  induction d with
  | zero => rfl
  | succ d ih =>
    rw [← ih fun k hk => halted k (by omega)]
    have halt := halted d (by omega)
    change (after csr regfile input (n + d)).posedge (input (n + d)) = _
    ext1 <;> simp [Core.posedge, Core.nextCsr, Core.trapEntry, Core.mretCommit, noRst, halt]

/-- A clock of a handler that saves nothing over mepc, leaves mstatus alone and does not trap. -/
def acknowledges (p : Slot) (s : Core) : Bool :=
  !(s.idEx.ctrl.isEcall || s.idEx.ctrl.isEbreak) &&
    (p != .gone || !(s.memWb.altersCsr aMepc || s.memWb.altersCsr aMstatus))

/-- While such a handler runs, mepc holds the saved address, interrupts stay masked and MPIE keeps
that they were on. -/
private theorem saved_after (noRst : ∀ n, (input n).rst = false) {n : ℕ}
    (taken : accepted (after csr regfile input n) (input n) = true)
    (harmless : Harmless (after csr regfile input n)) (m : ℕ)
    (handler : ∀ j < m, acknowledges (slotAfter csr regfile input n j)
      (after csr regfile input (n + 1 + j)) = true)
    (running : ∀ j < m, (after csr regfile input (n + 1 + j)).mretCommit (input (n + 1 + j)) =
      false) :
    (after csr regfile input (n + 1 + m)).csr.mepc = (after csr regfile input n).idEx.pc ∧
    (after csr regfile input (n + 1 + m)).csr.mstatus.getLsbD 3 = false ∧
    (after csr regfile input (n + 1 + m)).csr.mstatus.getLsbD 7 = true := by
  have entry := accepted_trapEntry taken
  have ex : ∀ a, ((after csr regfile input n).idEx.toExMem.toMemWb 0).altersCsr a = false := by
    intro a
    simp [MemWb.altersCsr, MemWb.writesCsr, ExMem.toMemWb, IdEx.toExMem, harmless.isCsr]
  induction m with
  | zero =>
    refine ⟨mepc_of_accepted taken, mie_of_trapEntry entry, ?_⟩
    have stacked := congrArg (fun c : CsrFile => c.mstatus) (csr_of_accepted taken)
    change ((after csr regfile input n).posedge (input n)).csr.mstatus.getLsbD 7 = true
    rw [stacked, stackMie_mpie]
    exact (enables_of_accepted taken).2
  | succ m ih =>
    obtain ⟨mepc, mie, mpie⟩ :=
      ih (fun j hj => handler j (by omega)) fun j hj => running j (by omega)
    have ack := handler m (by omega)
    simp only [acknowledges, Bool.and_eq_true, Bool.not_eq_true', Bool.or_eq_true, bne_iff_ne,
      Bool.or_eq_false_iff] at ack
    have noTrap : (after csr regfile input (n + 1 + m)).trapEntry (input (n + 1 + m)) = false := by
      simp [Core.trapEntry, ack.1, irqTaken_masked mie]
    have quietMepc := wb_quiet (olderAlters_after noRst entry (ex aMepc) harmless.mepc m)
      fun gone => (ack.2.resolve_left (by simp [gone])).1
    have quietMstatus := wb_quiet (olderAlters_after noRst entry (ex aMstatus) harmless.mstatus m)
      fun gone => (ack.2.resolve_left (by simp [gone])).2
    have nextMepc := mepc_posedge (i := input (n + 1 + m)) fun _ => quietMepc
    have nextMstatus := mstatus_posedge (i := input (n + 1 + m)) fun _ => quietMstatus
    rw [noTrap, if_neg Bool.false_ne_true] at nextMepc nextMstatus
    rw [running m (by omega), if_neg Bool.false_ne_true] at nextMstatus
    exact ⟨nextMepc.trans mepc, (congrArg (·.getLsbD 3) nextMstatus).trans mie,
      (congrArg (·.getLsbD 7) nextMstatus).trans mpie⟩

private theorem unstackMie_mie (old new : Word) :
    (unstackMie old new).getLsbD 3 = old.getLsbD 7 := by
  simp only [unstackMie, BitVec.getLsbD_append, BitVec.getLsbD_extractLsb']
  rfl

/-- The interrupted program goes on where it stopped: fetch is back at the saved address, nothing
younger is in the pipeline, the dynamic stream continues with the same instruction, and MIE is what
the instructions before that one left in it. -/
structure Resumed (s t : Core) (npc npc' : Word) : Prop where
  pc : t.pc = s.idEx.pc
  ifId : t.ifId = {}
  idEx : t.idEx = {}
  stream : npc' = npc
  mie : t.csr.mstatus.getLsbD 3 = (settled s true).mstatus.getLsbD 3

/-- An accepted interrupt that finds a harmless instruction in EX lets it commit nothing, and after
a handler that acknowledges and returns that instruction is the next to execute. Until then no
further interrupt is accepted. The older instructions commit once, and in order. -/
theorem interrupted_instruction_executes_once (csr : CsrFile) (regfile : RegFile)
    (input : ℕ → CoreIn) (noRst : ∀ n, (input n).rst = false) (n : ℕ)
    (taken : accepted (after csr regfile input n) (input n) = true)
    (valid : (after csr regfile input n).idEx.valid = true)
    (harmless : Harmless (after csr regfile input n)) :
    (∀ k, Cancelled (after csr regfile input (n + 1 + k)) (input (n + 1 + k))
      (slotAfter csr regfile input n k)) ∧
    (∀ d, (∀ k < d, (input (n + 1 + k)).halt = true) → (input (n + 1 + d)).halt = false →
      OlderCommitted (after csr regfile input n) (after csr regfile input (n + 1 + d + 1))
        (input n) (input (n + 1 + d))) ∧
    ∀ m, (∀ j < m, acknowledges (slotAfter csr regfile input n j)
        (after csr regfile input (n + 1 + j)) = true) →
      (∀ j < m, (after csr regfile input (n + 1 + j)).mretCommit (input (n + 1 + j)) = false) →
      (∀ j ≤ m, accepted (after csr regfile input (n + 1 + j)) (input (n + 1 + j)) = false) ∧
      ((after csr regfile input (n + 1 + m)).mretCommit (input (n + 1 + m)) = true →
        Resumed (after csr regfile input n) (after csr regfile input (n + 1 + m + 1))
          (streamPc csr regfile input n) (streamPc csr regfile input (n + 1 + m + 1))) := by
  refine ⟨?_, ?_, ?_⟩
  · intro k
    have held := holds_after noRst (accepted_trapEntry taken) k
    exact cancelled_of_holds held harmless.wrEn harmless.isCsr harmless.isSInstr
  · intro d halted run
    have committed := olderCommitted_posedge (noRst n) (noRst (n + 1 + d)) taken harmless run
    have still : after csr regfile input (n + 1 + d) = after csr regfile input (n + 1) :=
      after_halted noRst (n + 1) halted
    change OlderCommitted _ ((after csr regfile input (n + 1 + d)).posedge (input (n + 1 + d))) _ _
    rw [still]
    exact committed
  intro m handler running
  constructor
  · intro j hj
    have masked := (saved_after noRst taken harmless j (fun l hl => handler l (by omega))
      fun l hl => running l (by omega)).2.1
    rw [accepted, irqTaken_masked masked, Bool.and_false]
  · intro mret
    obtain ⟨saved, masked, mpie⟩ := saved_after noRst taken harmless m handler running
    have inert := (invariants_after csr regfile noRst (n + 1 + m)).1
    have returns := mret
    simp only [Core.mretCommit, Bool.and_eq_true, Bool.not_eq_true'] at mret
    obtain ⟨⟨run, ready⟩, word⟩ := mret
    have flush : (after csr regfile input (n + 1 + m)).exFlush (input (n + 1 + m)).timerIrq =
        true := by
      simp [Core.exFlush, IdEx.flushBase, IdEx.isPriv, word]
    have next : after csr regfile input (n + 1 + m + 1) =
      (after csr regfile input (n + 1 + m)).posedge (input (n + 1 + m)) := rfl
    have pc : (after csr regfile input (n + 1 + m + 1)).pc =
        (after csr regfile input n).idEx.pc := by
      rw [next]
      simp only [Core.posedge, noRst, run, ready, flush, Bool.false_eq_true, if_false, if_true]
      rw [inert.nextPc_mret _ word, saved]
    have ifId : (after csr regfile input (n + 1 + m + 1)).ifId = {} := by
      simp [next, Core.posedge, noRst, run, ready, flush]
    have idEx : (after csr regfile input (n + 1 + m + 1)).idEx = {} := by
      simp [next, Core.posedge, noRst, run, ready, flush]
    have stream : streamPc csr regfile input (n + 1 + m + 1) = streamPc csr regfile input n := by
      rw [← oldestPc_after noRst, ← oldestPc_after noRst]
      simp [oldestPc, ifId, idEx, pc, valid]
    have noTrap : (after csr regfile input (n + 1 + m)).trapEntry (input (n + 1 + m)) = false := by
      simp [Core.trapEntry, inert.mret word, irqTaken_masked masked]
    refine ⟨pc, ifId, idEx, stream, ?_⟩
    rw [settled_mstatus harmless, harmless.mie, next]
    simp only [Core.posedge, Core.nextCsr, noTrap, returns, Bool.false_eq_true, if_false, if_true]
    rw [unstackMie_mie, mpie]

/-- `addi x1, x1, 1` and a jump to itself; the handler at 0x40 is `mret`. -/
def countOnce : Word → Word := fun pc =>
  if pc = 0 then 0x00108093 else if pc = 4 then 0x0000006f else 0x30200073

/-- The run of `countOnce` with `timer_irq` high at clock `k` only. -/
def countOnceInput (k : ℕ) : ℕ → CoreIn :=
  programInput countOnce (fun n => n == k) enabledCsr fun _ => 0

/-- Interrupted in EX, the increment still goes on to WB, and again after the return. -/
theorem interrupted_instruction_executes_twice :
    accepted (after enabledCsr (fun _ => 0) (countOnceInput 2) 2) (countOnceInput 2 2) = true ∧
    (after enabledCsr (fun _ => 0) (countOnceInput 2) 2).idEx.valid = true ∧
    ¬ Cancelled (after enabledCsr (fun _ => 0) (countOnceInput 2) 4) (countOnceInput 2 4)
      (slotAfter enabledCsr (fun _ => 0) (countOnceInput 2) 2 1) ∧
    emitted Core.posedge regWrite (Core.reset enabledCsr fun _ => 0) (countOnceInput 2) 16 =
      [(1, 1), (1, 2)] := by
  refine ⟨by decide +kernel, by decide +kernel, ?_, by decide +kernel⟩
  intro cancelled
  exact absurd (cancelled.regWrite (by decide +kernel)) (by decide +kernel)

/-- One clock later the increment is in MEM and the jump in EX, and the interrupt is harmless: x1 is
counted once, and the program goes on at the jump. -/
theorem interrupted_instruction_executes_once_countOnce :
    OlderCommitted (after enabledCsr (fun _ => 0) (countOnceInput 3) 3)
      (after enabledCsr (fun _ => 0) (countOnceInput 3) 5) (countOnceInput 3 3)
      (countOnceInput 3 4) ∧
    (after enabledCsr (fun _ => 0) (countOnceInput 3) 5).regfile 1 = 1 ∧
    Resumed (after enabledCsr (fun _ => 0) (countOnceInput 3) 3)
      (after enabledCsr (fun _ => 0) (countOnceInput 3) 7)
      (streamPc enabledCsr (fun _ => 0) (countOnceInput 3) 3)
      (streamPc enabledCsr (fun _ => 0) (countOnceInput 3) 7) := by
  have harmless : Harmless (after enabledCsr (fun _ => 0) (countOnceInput 3) 3) :=
    { wrEn := by decide +kernel
      isCsr := by decide +kernel
      isSInstr := by decide +kernel
      mepc := by decide +kernel
      mstatus := by decide +kernel
      reads := by
        rintro a (rfl | rfl | rfl) <;> decide +kernel
      mie := by decide +kernel }
  obtain ⟨-, older, handler⟩ := interrupted_instruction_executes_once enabledCsr (fun _ => 0)
    (countOnceInput 3) (fun _ => rfl) 3 (by decide +kernel) (by decide +kernel) harmless
  refine ⟨older 0 (by decide) (by decide +kernel), by decide +kernel, ?_⟩
  exact (handler 2 (by decide +kernel) (by decide +kernel)).2 (by decide +kernel)

end Runs

end RiscvSoc.Cpu.TrapWindow
