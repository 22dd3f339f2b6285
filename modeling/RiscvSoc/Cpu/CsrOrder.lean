/- GID: RiscvSoc/Cpu/CsrOrder
   generality: G
   utility: support
   digest: CSR accesses in program order, and when the pipeline's two CSR write ports keep to it. -/

import RiscvSoc.Cpu.PipelineEdge

set_option autoImplicit false
set_option relaxedAutoImplicit false

namespace RiscvSoc.Cpu.CsrOrder

open RiscvSoc.Cpu.Decoder
open RiscvSoc.Cpu.Datapath
open RiscvSoc.Cpu.Pipeline
open RiscvSoc.Cpu.PipelineEdge

section File

variable {c c' : CsrFile} {a b : CsrAddr} {v : Word}

/-- One case of the write mux. -/
private theorem read_ite {p : Prop} [Decidable p] {w : Word} (other : ¬p → c'.read b = w)
    (here : p → c.read b = w) : (if p then c else c').read b = w := by
  by_cases taken : p
  · rw [if_pos taken, here taken]
  · rw [if_neg taken, other taken]

private theorem read_write_other (other : b ≠ a) : (c.write a v).read b = c.read b := by
  rw [CsrFile.write]
  iterate 8 refine read_ite (fun _ => ?_) ?_
  · rfl
  all_goals
    rintro rfl
    rw [CsrFile.read, CsrFile.read, if_neg other, if_neg other]

theorem read_write_same : (c.write a v).read a = (c'.write a v).read a := by
  rw [CsrFile.write]
  iterate 8 refine read_ite (fun _ => ?_) ?_
  · simp only [CsrFile.read, CsrFile.write, *, if_false]
  all_goals
    rintro rfl
    rfl

private theorem read_write_self : (c.write a (c.read a)).read a = c.read a := by
  rw [CsrFile.write]
  iterate 8 refine read_ite (fun _ => ?_) ?_
  · rfl
  all_goals
    rintro rfl
    rfl

theorem csrRdata_read (notMip : a ≠ aMip) (irq : Bool) : csrRdata c irq a = c.read a := by
  simp only [csrRdata, CsrFile.read, if_neg notMip]

/-- A trap entry touches mepc, mcause and mstatus and nothing else. -/
theorem read_trap (pc cause status : Word) (notMepc : b ≠ aMepc) (notMcause : b ≠ aMcause)
    (notMstatus : b ≠ aMstatus) :
    CsrFile.read { c with mepc := pc, mcause := cause, mstatus := status } b = c.read b := by
  simp only [CsrFile.read, if_neg notMepc, if_neg notMcause, if_neg notMstatus]

theorem read_mret (status : Word) (notMstatus : b ≠ aMstatus) :
    CsrFile.read { c with mstatus := status } b = c.read b := by
  simp only [CsrFile.read, if_neg notMstatus]

end File

section Commit

variable {x : MemWb} {c c' : CsrFile} {b : CsrAddr} {irq irq' : Bool}

theorem commitCsr_read_other (quiet : x.writesCsr b = false) :
    (x.commitCsr c irq).read b = c.read b := by
  rw [MemWb.commitCsr]
  split
  · rename_i commits
    apply read_write_other
    rintro rfl
    rw [Bool.and_eq_true] at commits
    simp [MemWb.writesCsr, commits] at quiet
  · rfl

theorem commitCsr_read_unaltered (notMip : b ≠ aMip) (quiet : x.altersCsr b = false) :
    (x.commitCsr c irq).read b = c.read b := by
  cases writes : x.writesCsr b with
  | false => exact commitCsr_read_other writes
  | true =>
    simp only [MemWb.altersCsr, writes, Bool.true_and, Bool.or_eq_false_iff, beq_eq_false_iff_ne,
      bne_eq_false_iff_eq] at quiet
    simp only [MemWb.writesCsr, Bool.and_eq_true, beq_iff_eq] at writes
    obtain ⟨⟨valid, isCsr⟩, rfl⟩ := writes
    have value : x.csrNewVal c irq = c.read x.csrAddr := by
      rw [MemWb.csrNewVal, csrRdata_read notMip, quiet.2, csrNewVal, if_neg quiet.1]
      split
      · exact BitVec.or_zero
      · exact BitVec.and_allOnes
    rw [MemWb.commitCsr, isCsr, valid, Bool.and_self, if_pos rfl, value]
    exact read_write_self

private theorem commitCsr_read_congr (notMip : b ≠ aMip) (same : c.read b = c'.read b) :
    (x.commitCsr c irq).read b = (x.commitCsr c' irq').read b := by
  cases writes : x.writesCsr b with
  | false => rw [commitCsr_read_other writes, commitCsr_read_other writes, same]
  | true =>
    simp only [MemWb.writesCsr, Bool.and_eq_true, beq_iff_eq] at writes
    obtain ⟨⟨valid, isCsr⟩, rfl⟩ := writes
    simp only [MemWb.commitCsr, isCsr, valid, Bool.and_self, if_true, MemWb.csrNewVal,
      csrRdata_read notMip, same]
    exact read_write_same

end Commit

/-- The CSR file once the instruction in WB has committed. -/
def settledWb (s : Core) (irq : Bool) : CsrFile := s.memWb.commitCsr s.csr irq

/-- The CSR file once the instructions in WB and MEM have committed. -/
def settled (s : Core) (irq : Bool) : CsrFile :=
  (s.exMem.toMemWb 0).commitCsr (settledWb s irq) irq

theorem settled_read_mem {s : Core} {a : CsrAddr} {irq : Bool}
    (quiet : s.exMem.writesCsr a = false) : (settled s irq).read a = (settledWb s irq).read a :=
  commitCsr_read_other quiet

/-- With no write of `a` behind EX the register already holds its settled value. -/
theorem settled_read {s : Core} {a : CsrAddr} (irq : Bool) (quiet : csrBehindEx s a = false) :
    (settled s irq).read a = s.csr.read a := by
  rw [csrBehindEx, Bool.or_eq_false_iff] at quiet
  rw [settled_read_mem quiet.1]
  exact commitCsr_read_other quiet.2

/-- CSR accesses as a machine without a pipeline performs them: `arch` is the CSR file all
instructions past EX have left, each in its turn, and the two words are what the instructions
now in MEM and WB read in theirs. -/
structure InOrder where
  arch : CsrFile
  memRead : Word := 0
  wbRead : Word := 0

def archNext (s : Core) (arch : CsrFile) : CsrFile :=
  if s.idEx.ctrl.isEcall || s.idEx.ctrl.isEbreak then
    { arch with
      mepc := s.idEx.pc
      mcause := if s.idEx.ctrl.isEcall then 11 else 3
      mstatus := stackMie arch.mstatus arch.mstatus }
  else if s.idEx.ctrl.isMret then { arch with mstatus := unstackMie arch.mstatus arch.mstatus }
  else (s.idEx.toExMem.toMemWb 0).commitCsr arch false

def InOrder.next (g : InOrder) (s : Core) (i : CoreIn) : InOrder :=
  if i.halt || s.memWait i then g
  else
    { arch := archNext s g.arch
      memRead := csrRdata g.arch false s.idEx.csrAddr
      wbRead := g.memRead }

/-- The pipeline agrees with the in-order machine on the CSRs in `T`. -/
structure Ordered (T : CsrAddr → Prop) (s : Core) (g : InOrder) : Prop where
  arch : ∀ a, T a → (settled s false).read a = g.arch.read a
  mem : s.exMem.valid = true → s.exMem.isCsr = true → T s.exMem.csrAddr →
    g.memRead = (settledWb s false).read s.exMem.csrAddr
  wb : s.memWb.valid = true → s.memWb.isCsr = true → T s.memWb.csrAddr →
    g.wbRead = s.csr.read s.memWb.csrAddr

/-- A trap resolves in EX while the instruction before it, in MEM, still has to write mepc or
mcause. -/
def trapRace (s : Core) (i : CoreIn) : Bool :=
  s.trapEntry i && (s.exMem.writesCsr aMepc || s.exMem.writesCsr aMcause)

@[simp] theorem irqTaken_false (s : Core) : s.irqTaken false = false := by
  simp [Core.irqTaken]

section Edge

variable {T : CsrAddr → Prop} {s : Core} {i : CoreIn} {g : InOrder} {b : CsrAddr}

private theorem nextCsr_read (run : i.halt = false) (noIrq : i.timerIrq = false)
    (named : s.trapEntry i = true → b ≠ aMepc ∧ b ≠ aMcause)
    (status : b = aMstatus → s.idEx.isPriv = false) :
    (s.nextCsr i).read b = (settledWb s false).read b := by
  have notMstatus : s.idEx.isPriv = true → b ≠ aMstatus := fun priv h => by simp [status h] at priv
  simp only [Core.nextCsr, run, noIrq, Bool.false_eq_true, if_false]
  split
  · rename_i trap
    have priv : s.idEx.isPriv = true := by
      simp only [Core.trapEntry, noIrq, irqTaken_false, Bool.or_false, Bool.and_eq_true] at trap
      rw [IdEx.isPriv, trap.2, Bool.true_or]
    rw [read_trap _ _ _ (named trap).1 (named trap).2 (notMstatus priv), settledWb]
  split
  · rename_i mret
    have priv : s.idEx.isPriv = true := by
      simp only [Core.mretCommit, Bool.and_eq_true] at mret
      rw [IdEx.isPriv, mret.2, Bool.or_true]
    rw [read_mret _ (notMstatus priv), settledWb]
  · rfl

/-- The trap itself sets mepc and mcause as the in-order machine does. -/
private theorem nextCsr_read_trap (run : i.halt = false) (ready : s.memWait i = false)
    (noIrq : i.timerIrq = false) (trap : (s.idEx.ctrl.isEcall || s.idEx.ctrl.isEbreak) = true)
    (named : b = aMepc ∨ b = aMcause) (arch : CsrFile) :
    (s.nextCsr i).read b = (archNext s arch).read b := by
  rw [Bool.or_eq_true] at trap
  simp only [Core.nextCsr, Core.trapEntry, archNext, run, ready, noIrq, irqTaken_false,
    Bool.or_false, Bool.not_false, Bool.true_and, Bool.or_eq_true, trap, if_true]
  rcases named with rfl | rfl <;> simp [CsrFile.read]

/-- The in-order machine leaves `b` alone when a trap or MRET does not name it. -/
private theorem archNext_read_other (inert : Inert s) (arch : CsrFile)
    (named : (s.idEx.ctrl.isEcall || s.idEx.ctrl.isEbreak) = true → b ≠ aMepc ∧ b ≠ aMcause)
    (status : b = aMstatus → s.idEx.isPriv = false) (priv : s.idEx.isPriv = true) :
    (archNext s arch).read b = arch.read b := by
  have notMstatus : b ≠ aMstatus := fun h => by simp [status h] at priv
  rw [archNext]
  split
  · rename_i trap
    exact read_trap _ _ _ (named trap).1 (named trap).2 notMstatus
  split
  · exact read_mret _ notMstatus
  · apply commitCsr_read_other
    simp [MemWb.writesCsr, ExMem.toMemWb, IdEx.toExMem, (inert.priv priv).2.1]

/-- A privileged word carries no CSR write down the pipeline. -/
private theorem priv_writesCsr (inert : Inert s) (priv : s.idEx.isPriv = true) (ld : Word) :
    (s.idEx.toExMem.toMemWb ld).writesCsr b = false := by
  simp [MemWb.writesCsr, ExMem.toMemWb, IdEx.toExMem, (inert.priv priv).2.1]

private theorem trapEntry_eq (run : i.halt = false) (ready : s.memWait i = false)
    (noIrq : i.timerIrq = false) :
    s.trapEntry i = (s.idEx.ctrl.isEcall || s.idEx.ctrl.isEbreak) := by
  simp [Core.trapEntry, run, ready, noIrq]

/-- One instruction moves from EX to MEM; the in-order machine executes it. -/
private theorem ordered_moved (inert : Inert s) (inv : Ordered T s g) (run : i.halt = false)
    (ready : s.memWait i = false) (noIrq : i.timerIrq = false) (noMip : ¬ T aMip)
    (status : T aMstatus → s.idEx.isPriv = false) (calm : trapRace s i = false)
    (pc : Word) (ifId : IfId) (idEx : IdEx) (regfile : RegFile) :
    Ordered T
      { pc, ifId, idEx, exMem := s.idEx.toExMem, memWb := s.exMem.toMemWb i.ldData,
        csr := s.nextCsr i, regfile } (g.next s i) := by
  have stepped : g.next s i =
      ⟨archNext s g.arch, csrRdata g.arch false s.idEx.csrAddr, g.memRead⟩ := by
    simp [InOrder.next, run, ready]
  have notMip : ∀ {b}, T b → b ≠ aMip := fun tracked h => noMip (h ▸ tracked)
  have quiet : ∀ {b}, T b → b = aMstatus → s.idEx.isPriv = false :=
    fun tracked h => status (h ▸ tracked)
  -- off the registers a trap names, what MEM settles now is what MEM and WB settle next
  have carried : ∀ {b}, T b → (s.trapEntry i = true → b ≠ aMepc ∧ b ≠ aMcause) →
      ((s.exMem.toMemWb i.ldData).commitCsr (s.nextCsr i) false).read b = g.arch.read b := by
    intro b tracked named
    rw [← inv.arch b tracked]
    exact commitCsr_read_congr (notMip tracked) (nextCsr_read run noIrq named (quiet tracked))
  rw [stepped]
  refine ⟨?_, ?_, ?_⟩
  · intro b tracked
    change ((s.idEx.toExMem.toMemWb 0).commitCsr
      ((s.exMem.toMemWb i.ldData).commitCsr (s.nextCsr i) false) false).read b = _
    by_cases priv : s.idEx.isPriv = true
    · rw [commitCsr_read_other (priv_writesCsr inert priv 0)]
      by_cases named : s.trapEntry i = true ∧ (b = aMepc ∨ b = aMcause)
      · have free : (s.exMem.toMemWb i.ldData).writesCsr b = false := by
          rw [trapRace, named.1, Bool.true_and, Bool.or_eq_false_iff] at calm
          rcases named.2 with rfl | rfl
          · exact calm.1
          · exact calm.2
        rw [trapEntry_eq run ready noIrq] at named
        rw [commitCsr_read_other free]
        exact nextCsr_read_trap run ready noIrq named.1 named.2 g.arch
      · rw [not_and, not_or] at named
        rw [carried tracked named]
        rw [trapEntry_eq run ready noIrq] at named
        exact (archNext_read_other inert g.arch named (quiet tracked) priv).symm
    · have plain := priv
      simp only [IdEx.isPriv, Bool.not_eq_true, Bool.or_eq_false_iff] at plain
      have noTrap : s.trapEntry i ≠ true := by
        simp [trapEntry_eq run ready noIrq, plain]
      simp only [archNext, plain, Bool.or_self, Bool.false_eq_true, if_false]
      exact commitCsr_read_congr (notMip tracked) (carried tracked fun h => absurd h noTrap)
  · -- the instruction that moved to MEM is a CSR instruction, so no trap resolved in EX
    intro valid isCsr tracked
    replace tracked : T s.idEx.csrAddr := tracked
    have noTrap : s.trapEntry i ≠ true := by
      intro trap
      rw [trapEntry_eq run ready noIrq] at trap
      have priv : s.idEx.isPriv = true := by rw [IdEx.isPriv, trap, Bool.true_or]
      have := (inert.priv priv).2.1
      exact Bool.false_ne_true (this.symm.trans isCsr)
    change csrRdata g.arch false s.idEx.csrAddr = _
    rw [csrRdata_read (notMip tracked)]
    exact (carried tracked fun h => absurd h noTrap).symm
  · intro valid isCsr tracked
    replace valid : s.exMem.valid = true := valid
    replace isCsr : s.exMem.isCsr = true := isCsr
    have clear : s.trapEntry i = true → s.exMem.csrAddr ≠ aMepc ∧ s.exMem.csrAddr ≠ aMcause := by
      intro trap
      simpa [trapRace, trap, ExMem.writesCsr, valid, isCsr] using calm
    change g.memRead = (s.nextCsr i).read s.exMem.csrAddr
    rw [inv.mem valid isCsr tracked, nextCsr_read run noIrq clear (quiet tracked)]

theorem ordered_posedge (inert : Inert s) (inv : Ordered T s g) (noRst : i.rst = false)
    (noIrq : i.timerIrq = false) (noMip : ¬ T aMip) (status : T aMstatus → s.idEx.isPriv = false)
    (calm : trapRace s i = false) : Ordered T (s.posedge i) (g.next s i) := by
  refine posedge_rule noRst fun t edge => ?_
  cases edge with
  | halted halt =>
    rw [InOrder.next, halt, Bool.true_or, if_pos rfl]
    exact inv
  | waiting run wait =>
    rw [InOrder.next, wait, Bool.or_true, if_pos rfl, noIrq]
    exact ⟨inv.arch, inv.mem, fun invalid => by simp at invalid⟩
  | flushed run ready => exact ordered_moved inert inv run ready noIrq noMip status calm _ _ _ _
  | stalled run ready straight =>
    rw [← nextCsr_straight run straight]
    exact ordered_moved inert inv run ready noIrq noMip status calm _ _ _ _
  | advanced run ready straight =>
    rw [← nextCsr_straight run straight]
    exact ordered_moved inert inv run ready noIrq noMip status calm _ _ _ _

end Edge

section Runs

/-- The CSRs whose program order the pipeline's hazard logic is meant to keep. -/
def Hazarded (a : CsrAddr) : Prop := a ≠ aMstatus ∧ a ≠ aMip

/-- The in-order machine beside a run of the pipeline. -/
def inOrderAfter (csr : CsrFile) (regfile : RegFile) (input : ℕ → CoreIn) : ℕ → InOrder
  | 0 => { arch := csr }
  | n + 1 => (inOrderAfter csr regfile input n).next (after csr regfile input n) (input n)

/-- CSR instructions and traps take effect in program order on this edge: the CSR instruction
in WB reads what it reads in its turn, a register that no instruction behind EX still has to
write holds what the instructions past EX left in it, one after the other, and a trap or return
jumps to what those before it left in mtvec or mepc. -/
structure InProgramOrder (s : Core) (i : CoreIn) (g : InOrder) : Prop where
  reads : s.memWb.valid = true → s.memWb.isCsr = true → Hazarded s.memWb.csrAddr →
    csrRdata s.csr i.timerIrq s.memWb.csrAddr = g.wbRead
  lands : ∀ a, Hazarded a → csrBehindEx s a = false → s.csr.read a = g.arch.read a
  trapTarget : s.trapEntry i = true → s.nextPc i.timerIrq = g.arch.mtvec
  returnTarget : s.mretCommit i = true → s.nextPc i.timerIrq = g.arch.mepc

variable {csr : CsrFile} {regfile : RegFile} {input : ℕ → CoreIn}

private theorem ordered_after (quiet : ∀ n, (input n).rst = false ∧ (input n).timerIrq = false)
    (n : ℕ)
    (calm : ∀ k < n, trapRace (after csr regfile input k) (input k) = false) :
    Ordered Hazarded (after csr regfile input n) (inOrderAfter csr regfile input n) := by
  induction n with
  | zero =>
    exact ⟨fun _ _ => rfl, fun invalid => absurd invalid Bool.false_ne_true,
      fun invalid => absurd invalid Bool.false_ne_true⟩
  | succ n ih =>
    have inv := ih fun k hk => calm k (by omega)
    have inert := (invariants_after csr regfile (fun k => (quiet k).1) n).1
    exact ordered_posedge inert inv (quiet n).1 (quiet n).2 (fun h => h.2 rfl)
      (fun h => absurd rfl h.1) (calm n (by omega))

theorem inProgramOrder_after (quiet : ∀ n, (input n).rst = false ∧ (input n).timerIrq = false)
    (n : ℕ) (calm : ∀ k < n, trapRace (after csr regfile input k) (input k) = false) :
    InProgramOrder (after csr regfile input n) (input n) (inOrderAfter csr regfile input n) := by
  have inv := ordered_after quiet n calm
  obtain ⟨inert, ready⟩ :=
    invariants_after csr regfile (fun k => (quiet k).1) n
  generalize after csr regfile input n = s at *
  refine ⟨?_, ?_, ?_, ?_⟩
  · intro valid isCsr hazarded
    rw [csrRdata_read hazarded.2]
    exact (inv.wb valid isCsr hazarded).symm
  · intro a hazarded free
    rw [← settled_read false free]
    exact inv.arch a hazarded
  · intro trap
    have word : (s.idEx.ctrl.isEcall || s.idEx.ctrl.isEbreak) = true := by
      simp only [Core.trapEntry, (quiet n).2, irqTaken_false, Bool.or_false, Bool.and_eq_true]
        at trap
      exact trap.2
    rw [inert.nextPc_trap _ word]
    have settled := inv.arch aMtvec ⟨by decide, by decide⟩
    rwa [settled_read false (ready.trap (by simpa using word))] at settled
  · intro mret
    have word : s.idEx.ctrl.isMret = true := by
      simp only [Core.mretCommit, Bool.and_eq_true] at mret
      exact mret.2
    rw [inert.nextPc_mret _ word]
    have settled := inv.arch aMepc ⟨by decide, by decide⟩
    rwa [settled_read false (ready.mret word)] at settled

end Runs

end RiscvSoc.Cpu.CsrOrder
