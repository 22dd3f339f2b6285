/- GID: RiscvSoc/Cpu/WrongPath
   generality: G
   utility: support
   digest: Two pipelines that differ in a fetched word that is thrown away stay together. -/

import RiscvSoc.Cpu.PipelineEdge

set_option autoImplicit false
set_option relaxedAutoImplicit false

namespace RiscvSoc.Cpu.WrongPath

open RiscvSoc.Cpu.Decoder
open RiscvSoc.Cpu.Datapath
open RiscvSoc.Cpu.Pipeline
open RiscvSoc.Cpu.PipelineEdge

def withWord (t : Core) (w : Word) : Core := { t with ifId := { t.ifId with instr := w } }

/-- The same registers, but for the word in IF/ID while EX redirects. -/
structure UpToFlush (s t : Core) : Prop where
  word : s = withWord t s.ifId.instr
  straight : t.idEx.flushBase = false → s = t

theorem UpToFlush.refl (t : Core) : UpToFlush t t := ⟨rfl, fun _ => rfl⟩

/-- Nothing behind IF/ID looks at the word. -/
theorem UpToFlush.behind {s t : Core} (same : UpToFlush s t) :
    s.pc = t.pc ∧ s.idEx = t.idEx ∧ s.exMem = t.exMem ∧ s.memWb = t.memWb ∧ s.csr = t.csr ∧
      s.regfile = t.regfile := by
  rw [same.word]
  exact ⟨rfl, rfl, rfl, rfl, rfl, rfl⟩

theorem UpToFlush.dataPort {s t : Core} (same : UpToFlush s t) : s.dataPort = t.dataPort :=
  congrArg ExMem.dataPort same.behind.2.2.1

variable {t : Core} {i j : CoreIn}

private theorem posedge_withWord (noRst : i.rst = false) (flush : t.exFlush i.timerIrq = true)
    (w : Word) :
    (withWord t w).posedge i = t.posedge i ∨
      (withWord t w).posedge i = withWord (t.posedge i) w ∧ (t.posedge i).idEx = t.idEx := by
  have redirects : (withWord t w).exFlush i.timerIrq = true := flush
  have waits : (withWord t w).memWait i = t.memWait i := rfl
  have csr : (withWord t w).nextCsr i = t.nextCsr i := rfl
  cases halt : i.halt with
  | true =>
    refine .inr ⟨?_, ?_⟩
    · ext1 <;> simp only [Core.posedge, noRst, halt, csr, if_true, Bool.false_eq_true, if_false] <;>
        rfl
    · simp only [Core.posedge, noRst, halt, if_true, Bool.false_eq_true, if_false]
  | false =>
    cases wait : t.memWait i with
    | true =>
      refine .inr ⟨?_, ?_⟩
      · ext1 <;> simp only [Core.posedge, noRst, halt, waits, wait, csr, if_true,
          Bool.false_eq_true, if_false] <;> rfl
      · simp only [Core.posedge, noRst, halt, wait, if_true, Bool.false_eq_true, if_false]
    | false =>
      left
      ext1 <;> simp only [Core.posedge, noRst, halt, waits, wait, redirects, flush, csr, if_true,
        Bool.false_eq_true, if_false] <;> rfl

private theorem toMemWb_congr {x : ExMem} {v w : Word} (load : x.isLoad = true → v = w) :
    x.toMemWb v = x.toMemWb w := by
  cases isLoad : x.isLoad with
  | true => rw [load isLoad]
  | false => simp [ExMem.toMemWb, ExMem.wrData, isLoad]

/-- The two fetch and load on this edge as long as it counts. -/
structure Agree (t : Core) (i j : CoreIn) : Prop where
  rst : i.rst = false ∧ j.rst = false
  irq : i.timerIrq = false ∧ j.timerIrq = false
  halt : i.halt = j.halt
  imemVld : i.imemVld = j.imemVld
  wait : t.memWait i = t.memWait j
  load : t.memWait j = false → t.exMem.isLoad = true → i.ldData = j.ldData
  fetch : (t.posedge j).ifId = { instr := j.imemRdata, pc := t.pc, valid := true } →
    (t.posedge j).idEx.flushBase = false → i.imemRdata = j.imemRdata

private theorem posedge_agree (agree : Agree t i j) : UpToFlush (t.posedge i) (t.posedge j) := by
  obtain ⟨⟨rst, rst'⟩, ⟨irq, irq'⟩, halt, vld, wait, load, fetch⟩ := agree
  have stall : t.frontStall i = t.frontStall j := by
    simp only [Core.frontStall, Core.ifWait, irq, irq', halt, vld]
  have csr : t.nextCsr i = t.nextCsr j := by
    simp only [Core.nextCsr, Core.trapEntry, Core.mretCommit, irq, irq', halt, wait]
  have loaded : t.memWait j = false → t.exMem.toMemWb i.ldData = t.exMem.toMemWb j.ldData :=
    fun ready => toMemWb_congr (load ready)
  by_cases advances : j.halt = false ∧ t.memWait j = false ∧ t.exFlush false = false ∧
      t.frontStall j = false
  · obtain ⟨run, ready, straight, go⟩ := advances
    have front : (t.posedge j).ifId = { instr := j.imemRdata, pc := t.pc, valid := true } := by
      simp [Core.posedge, rst', run, ready, irq', straight, go]
    have word : t.posedge i = withWord (t.posedge j) i.imemRdata := by
      ext1 <;> simp [Core.posedge, withWord, rst, rst', irq, irq', halt, run, wait, ready,
        straight, stall, go, csr, loaded ready]
    refine ⟨?_, fun base => ?_⟩
    · have same : (t.posedge i).ifId.instr = i.imemRdata := by rw [word]; rfl
      rw [same]
      exact word
    · have instr : (t.posedge j).ifId.instr = j.imemRdata := by rw [front]
      rw [word, fetch front base, ← instr]
      rfl
  · have same : t.posedge i = t.posedge j := by
      ext1
      case ifId =>
        simp only [Core.posedge, rst, rst', irq, irq', halt, wait, stall]
        split_ifs <;> first | rfl | simp_all
      case memWb =>
        have result : (if t.memWait j then ({} : MemWb) else t.exMem.toMemWb i.ldData) =
            if t.memWait j then {} else t.exMem.toMemWb j.ldData := by
          split_ifs with waiting
          · rfl
          · exact loaded (Bool.eq_false_iff.mpr waiting)
        simp only [Core.posedge, rst, rst', halt, wait, result]
      all_goals simp only [Core.posedge, Core.nextPc, rst, rst', irq, irq', halt, wait, stall, csr]
    rw [same]
    exact UpToFlush.refl _

/-- Both stay together. -/
theorem posedge_upToFlush {s : Core} (same : UpToFlush s t) (agree : Agree t i j) :
    UpToFlush (s.posedge i) (t.posedge j) := by
  have own := posedge_agree agree
  cases flush : t.idEx.flushBase with
  | false => rwa [same.straight flush]
  | true =>
    have redirects : t.exFlush i.timerIrq = true := by rw [Core.exFlush, flush, Bool.true_or]
    rw [same.word]
    rcases posedge_withWord agree.rst.1 redirects s.ifId.instr with kept | ⟨kept, still⟩
    · rwa [kept]
    · rw [kept]
      have idEx : (t.posedge j).idEx = t.idEx := own.behind.2.1.symm.trans still
      refine ⟨?_, fun base => ?_⟩
      · rw [own.word]
        rfl
      · rw [idEx, flush] at base
        exact Bool.noConfusion base

end RiscvSoc.Cpu.WrongPath
