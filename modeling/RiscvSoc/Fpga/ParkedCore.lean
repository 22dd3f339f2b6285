/- GID: RiscvSoc/Fpga/ParkedCore
   generality: G
   utility: support
   digest: The halted single-cycle core in front of an instruction, and the one clock that
   executes it. -/

import RiscvSoc.Cpu.Architecture
import RiscvSoc.Fpga.BramAccess

set_option autoImplicit false
set_option relaxedAutoImplicit false

namespace RiscvSoc.Fpga.ParkedCore

open RiscvSoc.Cpu.Decoder
open RiscvSoc.Cpu.Datapath
open RiscvSoc.Cpu.SingleCycle
open RiscvSoc.Cpu.Architecture
open RiscvSoc.Memory.ByteLanes
open RiscvSoc.Memory.DpRam
open RiscvSoc.Peripherals.DebugUart
open RiscvSoc.Fpga.RiscvTop

section Port

variable {clkPerBit : ℕ} {s : Soc} {i j : SocIn} {c : ScCore}

private theorem dataPort_singleCycle (core : s.core = .singleCycle c) (rst : i.rst = false) :
    s.dataPort i = c.dataPort s.imemRdata := by
  simp [Soc.dataPort, core, CpuCore.dataPort, rst, ScCore.live]

theorem imemAddr_singleCycle (core : s.core = .singleCycle c) (rst : i.rst = false) :
    s.imemAddr i = c.pc := by
  simp [Soc.imemAddr, core, CpuCore.imemAddr, rst, ScCore.live]

/-- BRAM after the store that the core has on the port, if it selects BRAM. -/
def portMem (s : Soc) (i : SocIn) : BramAddr → Word :=
  if s.bramSel i then storeInto (s.dataPort i) s.bram.mem else s.bram.mem

private theorem mem_clock : (s.posedge clkPerBit i).bram.mem =
    if s.dbg.fsm.dbgMemValid then
      if s.dbg.fsm.dbgMemWe then
        Function.update s.bram.mem (wordIndex s.dbg.fsm.memAddr) s.dbg.fsm.memWdata
      else s.bram.mem
    else portMem s i := by
  cases valid : s.dbg.fsm.dbgMemValid with
  | true => simp [Soc.posedge, Bram.posedge, Soc.bramIn, valid, writeMasked]
  | false =>
    cases sel : s.bramSel i with
    | true => simp [Soc.posedge, Bram.posedge, Soc.bramIn, valid, portMem, storeInto, sel,
        Soc.dmemWe, Soc.dmemAddr, Soc.dmemWdata, Soc.dmemByteena]
    | false => simp [Soc.posedge, Bram.posedge, Soc.bramIn, valid, portMem, sel]

private theorem portMem_other {a : BramAddr}
    (other : s.dmemWe i = true → s.bramSel i = true → wordIndex (s.dmemAddr i) ≠ a) :
    portMem s i a = s.bram.mem a := by
  unfold portMem
  split_ifs with sel
  · exact storeInto_other fun we => other we sel
  · rfl

/-- The registered address is that of the word fetched in this clock. -/
theorem fetched_next (core : s.core = .singleCycle c) (rst : i.rst = false) :
    (s.posedge clkPerBit i).bram.addressAR = wordIndex c.pc ∧
      (s.posedge clkPerBit i).imemAddrPrev = c.pc := by
  have addr := imemAddr_singleCycle core rst
  exact ⟨congrArg wordIndex addr, addr⟩

def executes (s : Soc) (i : SocIn) (c : ScCore) : Prop :=
  i.rst = false ∧ s.halt i = false ∧ c.stall (s.coreIn i) = false

theorem core_executed (core : s.core = .singleCycle c) (run : executes s i c) :
    (s.posedge clkPerBit i).core = .singleCycle (execute c s.imemRdata (s.ldData i)) := by
  obtain ⟨rst, halt, stall⟩ := run
  have next : c.posedge (s.coreIn i) = execute c s.imemRdata (s.ldData i) := by
    have low : (s.coreIn i).rst = false := rst
    have up : (s.coreIn i).halt = false := halt
    simp only [ScCore.posedge, ScCore.live, low, up, stall, Bool.false_eq_true, if_false,
      Bool.not_false, Bool.and_self, if_true]
    rfl
  rw [← next]
  change s.core.posedge (s.coreIn i) = _
  rw [core]
  rfl

/-- One that does not execute keeps its registers. -/
theorem core_kept (core : s.core = .singleCycle c) (rst : i.rst = false)
    (kept : s.halt i = true ∨ c.stall (s.coreIn i) = true) :
    (s.posedge clkPerBit i).core = .singleCycle c := by
  have same : c.posedge (s.coreIn i) = c := by
    have low : (s.coreIn i).rst = false := rst
    have off : (!(s.coreIn i).halt && !c.stall (s.coreIn i)) = false := by
      rcases kept with halt | stall
      · have up : (s.coreIn i).halt = true := halt
        rw [up, Bool.not_true, Bool.false_and]
      · rw [stall, Bool.not_true, Bool.and_false]
    ext1 <;> simp only [ScCore.posedge, ScCore.live, low, off, Bool.false_eq_true, if_false]
  change s.core.posedge (s.coreIn i) = _
  rw [core]
  exact congrArg CpuCore.singleCycle same

/-- In the clock after an execution the word is still on the bus. Its store, if it is one, has
been made, so that the strobe changes nothing. -/
theorem portMem_executed (core : s.core = .singleCycle c) (run : executes s i c)
    (fetch : s.bram.addressAR = wordIndex c.pc) (mine : s.dbg.fsm.dbgMemValid = false)
    (own : s.dmemWe i = true → s.bramSel i = true → wordIndex (s.dmemAddr i) ≠ s.bram.addressAR)
    (go : j.rst = false) :
    portMem (s.posedge clkPerBit i) j = (s.posedge clkPerBit i).bram.mem := by
  have next : (s.posedge clkPerBit i).core = _ := core_executed core run
  have mem : (s.posedge clkPerBit i).bram.mem = portMem s i := by
    rw [mem_clock, mine, if_neg Bool.false_ne_true]
  have word : (s.posedge clkPerBit i).imemRdata = s.imemRdata := by
    rw [Soc.imemRdata, Bram.qA, (fetched_next core run.1).1, ← fetch, mem]
    exact portMem_other own
  have after := dataPort_singleCycle (i := j) next go
  rw [word] at after
  have before := dataPort_singleCycle core run.1
  cases store : isSInstr s.imemRdata with
  | false =>
    have low : (s.posedge clkPerBit i).dmemWe j = false := by
      rw [Soc.dmemWe, after]
      exact store
    unfold portMem
    split_ifs
    · exact storeInto_idle low _
    · rfl
  | true =>
    have same : (s.posedge clkPerBit i).dataPort j = s.dataPort i := by
      rw [after, before]
      exact dataPort_store store (regfile_store store _)
    have sel : (s.posedge clkPerBit i).bramSel j = s.bramSel i := by
      rw [Soc.bramSel, Soc.dmemAddr, same]
      rfl
    rw [portMem, sel, same, mem, portMem]
    split_ifs
    · exact storeInto_again _ _
    · rfl

end Port

section Parked

/-- The instruction at pc stays within BRAM, does not overwrite itself, and reads no word of
`u`. -/
structure Plain (u : Set BramAddr) (a : Arch) : Prop where
  fetch : wordIndex a.core.pc ∉ u
  inside : a.port.req = true → inBram a.port.addr = true
  own : a.port.we = true → wordIndex a.port.addr ≠ wordIndex a.core.pc
  load : a.port.re = true → wordIndex a.port.addr ∉ u

/-- The core shows the instruction at pc on its ports. Its store has been made or has not been
made yet: made again, memory is that of after the instruction, up to the words of `u`. -/
structure Parked (u : Set BramAddr) (a : Arch) (s : Soc) : Prop where
  core : s.core = .singleCycle a.core
  fetch : s.bram.addressAR = wordIndex a.core.pc
  mem : AgreeOff u (storeInto a.port s.bram.mem) a.step.mem

/-- The first clock at an instruction: the word of the one before is still on the bus, and its
store changes nothing. -/
structure Arrived (u : Set BramAddr) (a : Arch) (s : Soc) : Prop where
  core : s.core = .singleCycle a.core
  still : ∀ i : SocIn, i.rst = false → portMem s i = s.bram.mem
  mem : AgreeOff u s.bram.mem a.mem

def At (u : Set BramAddr) (a : Arch) (s : Soc) : Prop := Parked u a s ∨ Arrived u a s

variable {clkPerBit : ℕ} {u : Set BramAddr} {a : Arch} {s : Soc} {i j : SocIn}

private theorem At.core (here : At u a s) : s.core = .singleCycle a.core := by
  rcases here with parked | arrived
  · exact parked.core
  · exact arrived.core

private theorem Parked.imemRdata (parked : Parked u a s) (plain : Plain u a) :
    s.imemRdata = a.instr := by
  have agree : storeInto a.port s.bram.mem (wordIndex a.core.pc) =
      storeInto a.port a.mem (wordIndex a.core.pc) := parked.mem plain.fetch
  rw [storeInto_other plain.own, storeInto_other plain.own] at agree
  rw [Soc.imemRdata, Bram.qA, parked.fetch, agree]
  rfl

private theorem Parked.dataPort (parked : Parked u a s) (plain : Plain u a) (rst : i.rst = false) :
    s.dataPort i = a.port := by
  rw [dataPort_singleCycle parked.core rst, parked.imemRdata plain]
  rfl

private theorem Parked.portMem (parked : Parked u a s) (plain : Plain u a) (rst : i.rst = false) :
    ParkedCore.portMem s i = storeInto a.port s.bram.mem := by
  have port := parked.dataPort plain rst
  rw [ParkedCore.portMem, port]
  split_ifs with sel
  · rfl
  · refine (storeInto_idle ?_ _).symm
    rw [← Bool.not_eq_true]
    intro we
    apply sel
    rw [Soc.bramSel, Soc.dmemAddr, port]
    exact plain.inside (by rw [DataPort.req, we, Bool.true_or])

private theorem At.settles (here : At u a s) {m : BramAddr → Word}
    (agree : AgreeOff u m s.bram.mem) :
    AgreeOff u (storeInto a.port m) a.step.mem := by
  rcases here with parked | arrived
  · exact (storeInto_agree agree a.port).trans parked.mem
  · exact storeInto_agree (agree.trans arrived.mem) a.port

/-- A halted clock leaves the core parked, whatever the debug UART writes to words of `u`. -/
theorem At.posedge_halted (here : At u a s) (plain : Plain u a) (rst : i.rst = false)
    (halt : s.halt i = true)
    (apart : s.dbg.fsm.dbgMemWe = true → wordIndex s.dbg.fsm.memAddr ∈ u) :
    Parked u a (s.posedge clkPerBit i) := by
  refine ⟨core_kept here.core rst (.inl halt), (fetched_next here.core rst).1, ?_⟩
  rw [mem_clock]
  split_ifs with valid we
  · exact here.settles (AgreeOff.update (Set.eqOn_refl _ _) (apart we) _)
  · exact here.settles (Set.eqOn_refl _ _)
  · rcases here with parked | arrived
    · rw [parked.portMem plain rst, storeInto_again]
      exact parked.mem
    · rw [arrived.still i rst]
      exact At.settles (.inr arrived) (Set.eqOn_refl _ _)

private theorem Parked.dmemRvalid (parked : Parked u a s)
    (next : Parked u a (s.posedge clkPerBit i))
    (plain : Plain u a) (rst : i.rst = false) (go : j.rst = false) (req : a.port.req = true) :
    (s.posedge clkPerBit i).dmemRvalid j = true := by
  have address : (s.posedge clkPerBit i).dmemAddrPrev = a.port.addr := by
    change s.dmemAddr i = _
    rw [Soc.dmemAddr, parked.dataPort plain rst]
  rw [Soc.dmemRvalid, Soc.dmemReq, Soc.dmemAddr, next.dataPort plain go, req, address]
  exact beq_self_eq_true _

private theorem Parked.executes (parked : Parked u a s) (next : Parked u a (s.posedge clkPerBit i))
    (plain : Plain u a) (rst : i.rst = false) (go : j.rst = false)
    (run : (s.posedge clkPerBit i).halt j = false) :
    ParkedCore.executes (s.posedge clkPerBit i) j a.core := by
  have fetched : (s.posedge clkPerBit i).imemRvalid j = true := by
    rw [Soc.imemRvalid, imemAddr_singleCycle next.core go, (fetched_next parked.core rst).2]
    exact beq_self_eq_true _
  refine ⟨go, run, ?_⟩
  simp only [ScCore.stall, Soc.coreIn, fetched, next.imemRdata plain]
  change (!_ && !true || a.port.req && !_) = false
  cases req : a.port.req with
  | false => simp
  | true => simp [parked.dmemRvalid next plain rst go req]

private theorem Parked.ldData (parked : Parked u a s) (next : Parked u a (s.posedge clkPerBit i))
    (plain : Plain u a) (rst : i.rst = false) (go : j.rst = false)
    (mine : s.dbg.fsm.dbgMemValid = false) (load : isLoad a.instr = true) :
    (s.posedge clkPerBit i).ldData j = a.mem (wordIndex a.port.addr) := by
  have re : a.port.re = true := load
  have idle : a.port.we = false := we_of_load load
  have req : a.port.req = true := by rw [DataPort.req, re, Bool.or_true]
  have port := next.dataPort plain go
  have sel : (s.posedge clkPerBit i).bramSel j = true := by
    rw [Soc.bramSel, Soc.dmemAddr, port]
    exact plain.inside req
  rw [BramAccess.ldData_of_dmemRvalid mine (parked.dmemRvalid next plain rst go req) sel,
    Soc.dmemAddr, port]
  have agree : storeInto a.port (s.posedge clkPerBit i).bram.mem (wordIndex a.port.addr) =
      storeInto a.port a.mem (wordIndex a.port.addr) := next.mem (plain.load re)
  rwa [storeInto_idle idle, storeInto_idle idle] at agree

/-- The one clock without halt after a halted one executes the instruction. -/
theorem Parked.step (parked : Parked u a s) (plain : Plain u a) (rst : i.rst = false)
    (halt : s.halt i = true) (mine : s.dbg.fsm.dbgMemValid = false) (go : j.rst = false)
    (run : (s.posedge clkPerBit i).halt j = false)
    (mine' : (s.posedge clkPerBit i).dbg.fsm.dbgMemValid = false) :
    Arrived u a.step ((s.posedge clkPerBit i).posedge clkPerBit j) := by
  have next : Parked u a (s.posedge clkPerBit i) := At.posedge_halted (.inl parked) plain rst halt
    fun we => absurd (mine.symm.trans (DebugRegs.dbgMemValid_of_dbgMemWe we)) Bool.false_ne_true
  have runs := parked.executes next plain rst go run
  have port := next.dataPort plain go
  have data : execute a.core a.instr ((s.posedge clkPerBit i).ldData j) = a.step.core :=
    execute_ldData (parked.ldData next plain rst go mine)
  have mem : ((s.posedge clkPerBit i).posedge clkPerBit j).bram.mem =
      storeInto a.port (s.posedge clkPerBit i).bram.mem := by
    rw [mem_clock, mine', if_neg Bool.false_ne_true]
    exact next.portMem plain go
  refine ⟨?_, fun k rst => ?_, ?_⟩
  · rw [core_executed next.core runs, next.imemRdata plain, data]
  · refine portMem_executed next.core runs next.fetch mine' (fun we _ => ?_) rst
    rw [next.fetch, Soc.dmemAddr, port]
    rw [Soc.dmemWe, port] at we
    exact plain.own we
  · rw [mem]
    exact next.mem

end Parked

end RiscvSoc.Fpga.ParkedCore
