/- GID: RiscvSoc/Fpga/TimerAck
   generality: G
   utility: main
   digest: A store of 1 to STATUS waiting in MEM, and the underflows that meet it. -/

import RiscvSoc.Fpga.FramebufferLoad
import RiscvSoc.Peripherals.TimerTicks

set_option autoImplicit false
set_option relaxedAutoImplicit false

namespace RiscvSoc.Fpga.TimerAck

open RiscvSoc.Clocked.Trajectory
open RiscvSoc.Cpu.Decoder
open RiscvSoc.Cpu.Datapath
open RiscvSoc.Cpu.Pipeline
open RiscvSoc.Cpu.PipelineEdge
open RiscvSoc.Peripherals.Timer
open RiscvSoc.Peripherals.TimerTicks (underflows acks writesReg Held Spared held_keeps_iff)
open RiscvSoc.Fpga.RiscvTop
open RiscvSoc.Fpga.FramebufferLoad

/-- A store in EX/MEM that writes a 1 to bit 0 of STATUS. -/
structure StatusStore (x : ExMem) : Prop where
  valid : x.valid = true
  store : x.isSInstr = true
  timer : inTimer x.result = true
  status : regIndex x.result = 0b10
  one : (storeData x.src2Value x.byteOff).getLsbD 0 = true

/-- It is in MEM in this clock, outside reset, and READ_MMIO does not take the address away. -/
structure OnBus (s : Soc) (i : SocIn) (x : ExMem) : Prop where
  inMem : InMem s x
  go : i.rst = false
  mmio : s.dbg.fsm.dbgMmioValid = false

variable {clkPerBit : ℕ} {s : Soc} {i : SocIn} {input : ℕ → SocIn} {x : ExMem} {p k : ℕ}

section Bus

private theorem acks_onBus (bus : OnBus s i x) (store : StatusStore x) :
    (s.timerIn i).rst = false ∧ acks (s.timerIn i) = true := by
  obtain ⟨c, core, rfl⟩ := bus.inMem
  have addr : s.dmemAddr i = c.exMem.result := dmemAddr_of_core core
  have port : s.dataPort i = c.exMem.dataPort := dataPort_of_core core
  have steered : s.periphAddr i = c.exMem.result := by
    rw [Soc.periphAddr, bus.mmio, if_neg Bool.false_ne_true, addr]
  have we : s.dmemWe i = true := by
    rw [Soc.dmemWe, port, ExMem.dataPort, store.store, store.valid]
    rfl
  have wdata : s.dmemWdata i = storeData c.exMem.src2Value c.exMem.byteOff := by
    rw [Soc.dmemWdata, port]
    rfl
  have reg : (c.exMem.result.extractLsb' 0 4).extractLsb' 2 2 = regIndex c.exMem.result := by
    ext n hn
    simp [regIndex]
  refine ⟨bus.go, ?_⟩
  simp only [acks, writesReg, Soc.timerIn, Soc.timerSel, steered, we, wdata, reg, store.timer,
    store.status, store.one]
  rfl

private theorem timer_run (s : Soc) (input : ℕ → SocIn) (n : ℕ) :
    (Soc.run clkPerBit s input n).timer =
      Peripherals.TimerTicks.run s.timer
        (fun k => (Soc.run clkPerBit s input k).timerIn (input k)) n := by
  induction n with
  | zero => rfl
  | succ n ih =>
    have step : (Soc.run clkPerBit s input (n + 1)).timer =
      (Soc.run clkPerBit s input n).timer.posedge _ := rfl
    rw [step, ih]
    rfl

end Bus

section Stay

private theorem req_store {c : Core} (store : StatusStore c.exMem) :
    c.exMem.dataPort.req = true := by
  simp [ExMem.dataPort, DataPort.req, store.store, store.valid]

private theorem memWait_store {c : Core} (core : s.core = .pipelined c)
    (store : StatusStore c.exMem) :
    c.memWait (s.coreIn i) = !(c.exMem.result == s.dmemAddrPrev) := by
  have req : s.dmemReq i = true := by
    rw [Soc.dmemReq, dataPort_of_core core]
    exact req_store store
  rw [Core.memWait, Core.dataPort, req_store store, Bool.true_and, Soc.coreIn, Soc.dmemRvalid, req,
    Bool.true_and, dmemAddr_of_core core]

private theorem stays_two {c : Core} (core : s.core = .pipelined c) (store : StatusStore c.exMem)
    (go : i.rst = false) (changed : s.dmemAddrPrev ≠ c.exMem.result) (j : SocIn) :
    ∃ d, (s.posedge clkPerBit i).core = .pipelined d ∧ d.exMem = c.exMem ∧
      d.memWait ((s.posedge clkPerBit i).coreIn j) = false := by
  have wait : c.memWait (s.coreIn i) = true := by
    rw [memWait_store core store, beq_eq_false_iff_ne.mpr changed.symm]
    rfl
  have next : (s.posedge clkPerBit i).core = .pipelined (c.posedge (s.coreIn i)) := by
    rw [Soc.posedge, core]
    rfl
  have kept : (c.posedge (s.coreIn i)).exMem = c.exMem := by
    obtain ⟨d, eq⟩ : ∃ d, c.posedge (s.coreIn i) = d := ⟨_, rfl⟩
    have edge := posedge_edge c (s.coreIn i) go
    rw [eq] at edge ⊢
    cases edge with
    | halted | waiting => rfl
    | flushed _ ready | stalled _ ready | advanced _ ready =>
      rw [wait] at ready
      cases ready
  have prev : (s.posedge clkPerBit i).dmemAddrPrev = c.exMem.result := dmemAddr_of_core core
  refine ⟨_, next, kept, ?_⟩
  rw [memWait_store next (by rwa [kept]), kept, prev]
  simp

end Stay

/-- A store of 1 to STATUS that is on the bus in the `k` clocks from `p` on swallows no underflow
of these clocks exactly when the counter, as it stands in clock `p`, is stopped, does not underflow
in them, or underflows in the last of them. When its address changed, the store waits for one clock
and is ready in the next. -/
theorem ack_swallows_no_tick_iff (clkPerBit : ℕ) (s : Soc) (input : ℕ → SocIn) {p k : ℕ}
    {x : ExMem} (store : StatusStore x) (pos : 1 ≤ k)
    (bus : ∀ j < k, OnBus (Soc.run clkPerBit s input (p + j)) (input (p + j)) x) :
    ((∀ j < k,
        underflows (Soc.run clkPerBit s input (p + j)).timer
          ((Soc.run clkPerBit s input (p + j)).timerIn (input (p + j))) = true →
        (Soc.run clkPerBit s input (p + k)).timer.pending = true) ↔
      Spared (Soc.run clkPerBit s input p).timer k) ∧
    ((Soc.run clkPerBit s input p).dmemAddrPrev ≠ x.result →
      ∃ c, (Soc.run clkPerBit s input (p + 1)).core = .pipelined c ∧ c.exMem = x ∧
        c.memWait ((Soc.run clkPerBit s input (p + 1)).coreIn (input (p + 1))) = false) := by
  constructor
  · have held : Held (fun n => (Soc.run clkPerBit s input n).timerIn (input n)) p k :=
      fun j lt => acks_onBus (bus j lt) store
    simp only [timer_run]
    exact held_keeps_iff held pos
  · intro changed
    obtain ⟨⟨c, core, same⟩, go, -⟩ := bus 0 pos
    subst same
    exact stays_two core store go changed (input (p + 1))

section Board

/-- Sets RELOAD, enables the timer and acknowledges three instructions later. -/
def ackProgram (reload : Word) : List Word :=
  [0x300001b7, 0x00100293, reload <<< 20 ||| 0x00000213, 0x0041a023, 0x0051a223, 0x00000013,
    0x00000013, 0x0051a423, 0x0000006f]

def ackBoard (reload : Word) : Soc := Soc.powerUp .pipelinedZero (ackProgram reload)

/-- Reset, then KEY[1] lets the core run. -/
def ackInput (n : ℕ) : SocIn := if n = 0 then { rst := true } else { key1 := false }

/-- `sw x5, 8(x3)` in MEM. -/
def ackStore : ExMem where
  result := 0x30000008
  src2Value := 1
  rd := 8
  isSInstr := true
  isSw := true
  valid := true
  csrOptype := 0b10
  csrAddr := 5

private theorem statusStore_ackStore : StatusStore ackStore :=
  ⟨rfl, rfl, by decide, by decide, by decide⟩

def memSlot (s : Soc) : Option ExMem :=
  match s.core with
  | .pipelined c => some c.exMem
  | .singleCycle _ => none

private theorem inMem_of_memSlot (slot : memSlot s = some x) : InMem s x := by
  unfold memSlot at slot
  cases core : s.core with
  | pipelined c =>
    rw [core] at slot
    exact ⟨c, core, Option.some.inj slot⟩
  | singleCycle c =>
    rw [core] at slot
    cases slot

abbrev ackRun (reload : Word) : ℕ → Soc :=
  Soc.run RiscvTop.clkPerBit (ackBoard reload) ackInput

private theorem onBus_ackStore {reload : Word} (either : reload = 5 ∨ reload = 6) :
    ∀ j < 2, OnBus (ackRun reload (23 + j)) (ackInput (23 + j)) ackStore := by
  intro j lt
  have cases : j = 0 ∨ j = 1 := by omega
  rcases either with rfl | rfl <;> rcases cases with rfl | rfl <;>
    exact ⟨inMem_of_memSlot (by decide +kernel), rfl, by decide +kernel⟩

/-- With RELOAD 5 the underflow of clock 23 is lost: the store clears it in clock 24 once more. -/
theorem ack_swallows_tick :
    ¬∀ j < 2, underflows (ackRun 5 (23 + j)).timer
      ((ackRun 5 (23 + j)).timerIn (ackInput (23 + j))) = true →
      (ackRun 5 (23 + 2)).timer.pending = true := by
  intro keeps
  have lost : (ackRun 5 (23 + 2)).timer.pending = false := by decide +kernel
  have under : underflows (ackRun 5 (23 + 0)).timer
      ((ackRun 5 (23 + 0)).timerIn (ackInput (23 + 0))) = true := by decide +kernel
  have kept := keeps 0 (by decide) under
  rw [lost] at kept
  cases kept

/-- With RELOAD 6 the underflow comes in the last clock of the store and stays pending. -/
theorem ack_swallows_no_tick_last :
    underflows (ackRun 6 24).timer ((ackRun 6 24).timerIn (ackInput 24)) = true ∧
    Spared (ackRun 6 23).timer 2 ∧
    ∀ j < 2, underflows (ackRun 6 (23 + j)).timer
      ((ackRun 6 (23 + j)).timerIn (ackInput (23 + j))) = true →
      (ackRun 6 (23 + 2)).timer.pending = true := by
  have spared : Spared (ackRun 6 23).timer 2 := .inr (.inr (by decide +kernel))
  exact ⟨by decide +kernel, spared, (ack_swallows_no_tick_iff RiscvTop.clkPerBit (ackBoard 6)
    ackInput statusStore_ackStore (by decide) (onBus_ackStore (.inr rfl))).1.mpr spared⟩

end Board

end RiscvSoc.Fpga.TimerAck
