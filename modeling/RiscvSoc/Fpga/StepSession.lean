/- GID: RiscvSoc/Fpga/StepSession
   generality: G
   utility: main
   digest: STEP on the single-cycle board: one command executes one instruction. -/

import RiscvSoc.Fpga.DebugSession
import RiscvSoc.Fpga.ParkedCore
import RiscvSoc.Peripherals.DebugStep

set_option autoImplicit false
set_option relaxedAutoImplicit false

namespace RiscvSoc.Fpga.StepSession

open RiscvSoc.Clocked.Trajectory
open RiscvSoc.Cpu.Decoder
open RiscvSoc.Cpu.SingleCycle
open RiscvSoc.Cpu.Architecture
open RiscvSoc.Memory.ByteLanes
open RiscvSoc.Memory.DpRam
open RiscvSoc.Peripherals.DebugUart
open RiscvSoc.Peripherals.DebugReply
open RiscvSoc.Peripherals.DebugReceive
open RiscvSoc.Peripherals.DebugRequest
open RiscvSoc.Peripherals.DebugExchange
open RiscvSoc.Peripherals.DebugStep
open RiscvSoc.Fpga.RiscvTop
open RiscvSoc.Fpga.HaltedBoard
open RiscvSoc.Fpga.DebugSession
open RiscvSoc.Fpga.ParkedCore

section Specification

/-- The words that WRITE_MEM writes in a session. -/
def written (es : List Entry) : Set BramAddr :=
  {a | ∃ e ∈ es, ∃ addr data, e.order = .request (.writeMem addr data) ∧ wordIndex addr = a}

/-- A store that the core executes in this clock leaves its own word alone. -/
def KeepsCode (s : Soc) (i : SocIn) : Prop :=
  ∀ c, s.core = .singleCycle c → executes s i c → s.dmemWe i = true → s.bramSel i = true →
    wordIndex (s.dmemAddr i) ≠ s.bram.addressAR

/-- The states the single-cycle board comes to from power-up with KEY[1] released, resets
included, under a program that does not overwrite its instructions. -/
def Reached (clkPerBit : ℕ) (s : Soc) : Prop :=
  ∃ (c : ScCore) (program : List Word) (history : ℕ → SocIn) (n : ℕ), c.pc = 0 ∧
    s = Soc.run clkPerBit (Soc.powerUp (.singleCycle c) program) history n ∧
    ∀ k < n, (history k).key1 = true ∧
      KeepsCode (Soc.run clkPerBit (Soc.powerUp (.singleCycle c) program) history k) (history k)

end Specification

section Fetching

variable {clkPerBit : ℕ} {s : Soc} {i : SocIn} {c : ScCore} {u : Set BramAddr}

/-- What a reachable board keeps: port A shows the word at pc, or the word before it, whose
store has been made. -/
structure Fetching (s : Soc) (c : ScCore) : Prop where
  core : s.core = .singleCycle c
  access : s.dbg.fsm.HaltedAccess
  registered : s.bram.addressAR = wordIndex s.imemAddrPrev
  word : s.bram.addressAR = wordIndex c.pc ∨
    ∀ i : SocIn, i.rst = false → portMem s i = s.bram.mem

private theorem fetching_powerUp (pc : c.pc = 0) (program : List Word) :
    Fetching (Soc.powerUp (.singleCycle c) program) c := by
  have zero : (0 : BramAddr) = wordIndex 0 := by decide
  refine ⟨rfl, fun _ => rfl, zero, .inl ?_⟩
  rw [pc]
  exact zero

private theorem fetching_posedge (here : Fetching s c) (key1 : i.key1 = true)
    (keeps : KeepsCode s i) :
    ∃ d, Fetching (s.posedge clkPerBit i) d := by
  have access : (s.posedge clkPerBit i).dbg.fsm.HaltedAccess :=
    DbgUart.haltedAccess_posedge here.access _
  cases rst : i.rst with
  | true =>
    have next : (s.posedge clkPerBit i).core = .singleCycle (c.posedge (s.coreIn i)) := by
      change s.core.posedge (s.coreIn i) = _
      rw [here.core]
      rfl
    have address : s.imemAddr i = 0 := by
      simp [Soc.imemAddr, here.core, CpuCore.imemAddr, rst, ScCore.live]
    have pc : (c.posedge (s.coreIn i)).pc = 0 := by
      have high : (s.coreIn i).rst = true := rst
      simp [ScCore.posedge, high]
    exact ⟨_, next, access, rfl, .inl (congrArg wordIndex (address.trans pc.symm))⟩
  | false =>
    by_cases run : executes s i c
    · have valid : s.imemRvalid i = true := by
        obtain ⟨-, halt, stall⟩ := run
        rw [← Bool.not_eq_false]
        intro invalid
        simp [ScCore.stall, Soc.coreIn, halt, invalid] at stall
      have still : s.imemAddrPrev = c.pc := by
        rw [Soc.imemRvalid, imemAddr_singleCycle here.core rst, beq_iff_eq] at valid
        exact valid.symm
      have fetch : s.bram.addressAR = wordIndex c.pc := by rw [here.registered, still]
      have mine := BramAccess.dbgMemValid_of_running here.access key1 run.2.1
      exact ⟨_, core_executed here.core run, access, rfl, .inr fun j go =>
        portMem_executed here.core run fetch mine (keeps c here.core run) go⟩
    · have kept : s.halt i = true ∨ c.stall (s.coreIn i) = true := by
        rw [← Bool.not_eq_false, ← Bool.not_eq_false]
        by_contra neither
        rw [not_or, not_not, not_not] at neither
        exact run ⟨rst, neither⟩
      exact ⟨c, core_kept here.core rst kept, access, rfl, .inl (fetched_next here.core rst).1⟩

private theorem fetching_of_reached (reached : Reached clkPerBit s)
    (core : s.core = .singleCycle c) :
    Fetching s c := by
  obtain ⟨c₀, program, history, n, pc, rfl, allowed⟩ := reached
  obtain ⟨d, fetching⟩ := trajectory_invariant (fun t : Soc => ∃ d, Fetching t d)
    (fun t i => i.key1 = true ∧ KeepsCode t i) ⟨c₀, fetching_powerUp pc program⟩
    (fun t i ⟨d, here⟩ ok => fetching_posedge here ok.1 ok.2) n allowed
  obtain rfl : d = c := CpuCore.singleCycle.inj (fetching.core.symm.trans core)
  exact fetching

private theorem at_of_fetching (fetching : Fetching s c) : At u ⟨c, s.bram.mem⟩ s := by
  rcases fetching.word with fetch | still
  · exact .inl ⟨fetching.core, fetch, Set.eqOn_refl _ _⟩
  · exact .inr ⟨fetching.core, still, Set.eqOn_refl _ _⟩

end Fetching

section Sessions

variable {clkPerBit : ℕ} {s : Soc} {input : ℕ → SocIn} {clocks m n : ℕ} {u : Set BramAddr}
  {a : Arch}

/-- The core holds the registers of `a`, and stands at the instruction there. -/
structure Standing (u : Set BramAddr) (a : Arch) (s : Soc) : Prop where
  core : s.core = .singleCycle a.core
  here : Plain u a → At u a s

private theorem standing_halted (calm : HandsOff input clocks) (le : m ≤ n) (inside : n ≤ clocks)
    (halt : ∀ k, m ≤ k → k < n → (Soc.run clkPerBit s input k).dbg.fsm.halt = true)
    (apart : ∀ k, m ≤ k → k < n → (Soc.run clkPerBit s input k).dbg.fsm.dbgMemWe = true →
      wordIndex (Soc.run clkPerBit s input k).dbg.fsm.memAddr ∈ u)
    (standing : Standing u a (Soc.run clkPerBit s input m)) :
    Standing u a (Soc.run clkPerBit s input n) := by
  induction n, le using Nat.le_induction with
  | base => exact standing
  | succ n le ih =>
    obtain ⟨rst, key1⟩ := calm n (by omega)
    obtain ⟨core, here⟩ := ih (by omega) (fun k lo hi => halt k lo (by omega))
      fun k lo hi => apart k lo (by omega)
    have held : (Soc.run clkPerBit s input n).halt (input n) = true := by
      rw [Soc.halt, halt n le (by omega), key1, Bool.and_self]
    exact ⟨core_kept core rst (.inl held), fun plain =>
      .inl ((here plain).posedge_halted plain rst held (apart n le (by omega)))⟩

private theorem standing_request (calm : HandsOff input clocks) {e : Exchange}
    (handled : Handled clkPerBit s.dbg (debugInput clkPerBit s input) n e)
    (inside : e.stop ≤ clocks)
    (apart : ∀ addr data, e.request = .writeMem addr data → wordIndex addr ∈ u)
    (standing : Standing u a (Soc.run clkPerBit s input n)) :
    Standing u a (Soc.run clkPerBit s input e.stop) := by
  have order := handled.order
  have frame := handled.frame
  have dbg := dbg_upto clkPerBit s calm inside
  refine standing_halted calm (by omega) inside ?_ ?_ standing
  · intro k lo hi
    rw [dbg k hi.le]
    exact handled.halt k lo hi.le
  · intro k lo hi we
    rw [dbg k hi.le] at we ⊢
    obtain rfl : k = e.last + 1 := by
      by_contra other
      rcases Nat.lt_or_gt_of_ne other with sooner | later
      · exact absurd ((handled.early k lo (by omega)).symm.trans we) Bool.false_ne_true
      · exact absurd ((handled.late k later hi.le).symm.trans we) Bool.false_ne_true
    by_cases write : ∃ addr data, e.request = .writeMem addr data
    · obtain ⟨addr, data, request⟩ := write
      have received := handled.received
      rw [request] at received
      have address : (run clkPerBit s.dbg (debugInput clkPerBit s input)
          (e.last + 1)).fsm.memAddr = addr := (congrArg DebugRegs.memAddr received.fsm :)
      rw [address]
      exact apart addr data request
    · have reads := handled.reads fun addr data request => write ⟨addr, data, request⟩
      exact absurd (reads.symm.trans we) Bool.false_ne_true

private theorem standing_step (calm : HandsOff input clocks) {first stop : ℕ}
    (stepped : Stepped clkPerBit s.dbg (debugInput clkPerBit s input) n first stop)
    (inside : stop ≤ clocks) (plain : Plain u a)
    (standing : Standing u a (Soc.run clkPerBit s input n)) :
    Standing u a.step (Soc.run clkPerBit s input stop) := by
  have start := stepped.start
  have frame := stepped.frame
  have dbg := dbg_upto clkPerBit s calm inside
  have halt : ∀ k, n ≤ k → k ≤ stop → k ≠ first + 2 →
      (Soc.run clkPerBit s input k).dbg.fsm.halt = true := by
    intro k lo hi other
    rw [dbg k hi]
    exact stepped.halt k lo hi other
  have port : ∀ k, n ≤ k → k ≤ stop →
      (Soc.run clkPerBit s input k).dbg.fsm.dbgMemValid = false := by
    intro k lo hi
    rw [dbg k hi]
    exact stepped.port k lo hi
  have apart : ∀ k, n ≤ k → k ≤ stop → (Soc.run clkPerBit s input k).dbg.fsm.dbgMemWe = true →
      wordIndex (Soc.run clkPerBit s input k).dbg.fsm.memAddr ∈ u := by
    intro k lo hi we
    exact absurd ((port k lo hi).symm.trans (DebugRegs.dbgMemValid_of_dbgMemWe we))
      Bool.false_ne_true
  have held : ∀ k, n ≤ k → k < stop → k ≠ first + 2 →
      (Soc.run clkPerBit s input k).halt (input k) = true := by
    intro k lo hi other
    rw [Soc.halt, halt k lo hi.le other, (calm k (by omega)).2, Bool.and_self]
  have before : Standing u a (Soc.run clkPerBit s input first) :=
    standing_halted calm start (by omega) (fun k lo hi => halt k lo (by omega) (by omega))
      (fun k lo hi => apart k lo (by omega)) standing
  have parked : Parked u a (Soc.run clkPerBit s input (first + 1)) :=
    (before.here plain).posedge_halted plain (calm first (by omega)).1
      (held first (by omega) (by omega) (by omega)) (apart first (by omega) (by omega))
  have go : (Soc.run clkPerBit s input (first + 2)).halt (input (first + 2)) = false := by
    rw [Soc.halt, dbg _ (by omega), stepped.drop, Bool.false_and]
  have arrived : Arrived u a.step (Soc.run clkPerBit s input (first + 3)) :=
    parked.step plain (calm (first + 1) (by omega)).1
      (held (first + 1) (by omega) (by omega) (by omega)) (port (first + 1) (by omega) (by omega))
      (calm (first + 2) (by omega)).1 go (port (first + 2) (by omega) (by omega))
  exact standing_halted calm frame inside (fun k lo hi => halt k (by omega) (by omega) (by omega))
    (fun k lo hi => apart k (by omega) (by omega)) ⟨arrived.core, fun _ => .inr arrived⟩

private theorem standing_session (pos : 0 < clkPerBit) (fits : clkPerBit < 2 ^ 16)
    (calm : HandsOff input clocks)
    (idle : Idle (run clkPerBit s.dbg (debugInput clkPerBit s input) n)) (es : List Entry)
    (paced : Paced clkPerBit (line input) n es)
    (read : RepliesRead (sentBytes clkPerBit s input) n es) (inside : ending n es ≤ clocks)
    (apart : written es ⊆ u) (plain : ∀ k < steps es, Plain u (a.after k))
    (standing : Standing u a (Soc.run clkPerBit s input n)) :
    Standing u (a.after (steps es)) (Soc.run clkPerBit s input (ending n es)) := by
  induction es generalizing n a with
  | nil => exact standing
  | cons e es ih =>
    obtain ⟨order, first, last, stop⟩ := e
    obtain ⟨arrive, silent, frame, rest⟩ := paced
    obtain ⟨out, later⟩ := read
    have past : stop ≤ clocks := (le_ending rest).trans inside
    have others : written es ⊆ u := by
      rintro w ⟨e, member, write⟩
      exact apart ⟨e, List.mem_cons_of_mem _ member, write⟩
    cases order with
    | step =>
      have stepped := stepped_arrive pos fits (fun _ => rfl) idle arrive silent frame
      have count : steps (⟨.step, first, last, stop⟩ :: es) = steps es + 1 := by simp [steps]
      rw [count] at plain ⊢
      have next := standing_step calm stepped past (plain 0 (Nat.succ_pos _)) standing
      exact ih stepped.idle rest later inside others
        (fun k below => plain (k + 1) (Nat.succ_lt_succ below)) next
    | request q =>
      have single : Session clkPerBit (line input) (sentBytes clkPerBit s input) n
          [⟨q, first, last, stop⟩] := ⟨arrive, silent, frame, out, trivial⟩
      have handled := handled_session pos fits calm idle single past
      have count : steps (⟨.request q, first, last, stop⟩ :: es) = steps es := by simp [steps]
      rw [count] at plain ⊢
      have own : ∀ addr data, q = .writeMem addr data → wordIndex addr ∈ u := by
        rintro addr data rfl
        exact apart ⟨_, List.mem_cons_self, addr, data, rfl, rfl⟩
      exact ih handled.idle rest later inside others plain
        (standing_request calm handled past own standing)

/-- STEP executes exactly one instruction. From a reachable board that is halted with the debug
UART idle, STEP commands among READ and WRITE_MEM commands, each sent once the reply before it
has been read, take pc, register file and CSR file to where executing that many instructions
takes them. The instructions access BRAM only, none overwrites itself, and WRITE_MEM writes no
word that they fetch or load. -/
theorem steps_execute (pos : 0 < clkPerBit) (fits : clkPerBit < 2 ^ 16)
    (reached : Reached clkPerBit s) {c : ScCore} (core : s.core = .singleCycle c)
    (idle : s.dbg.fsm.state = .cmdIdle) (halt : s.dbg.fsm.halt = true) (es : List Entry)
    (calm : HandsOff input (ending 0 es)) (paced : Paced clkPerBit (line input) 0 es)
    (read : RepliesRead (sentBytes clkPerBit s input) 0 es)
    (plain : ∀ k < steps es, Plain (written es) (Arch.after ⟨c, s.bram.mem⟩ k)) :
    (Soc.run clkPerBit s input (ending 0 es)).core =
      .singleCycle (Arch.after ⟨c, s.bram.mem⟩ (steps es)).core := by
  have linked : Linked s.dbg := by
    obtain ⟨c₀, program, history, n, -, eq, -⟩ := reached
    exact linked_of_reachable ⟨.singleCycle c₀, program, history, n, eq⟩
  have start : Standing (written es) ⟨c, s.bram.mem⟩ s :=
    ⟨core, fun _ => at_of_fetching (fetching_of_reached reached core)⟩
  exact (standing_session (n := 0) pos fits calm (idle_of_linked linked idle halt) es paced read
    le_rfl Set.Subset.rfl plain start).core

end Sessions

section Example

/-- Two instructions: `addi x1, x0, 5` and `sw x1, 256(x0)`. -/
def stepCore : ScCore := ⟨0, fun _ => 0, zeroCsr⟩

def stepBoard : Soc := Soc.powerUp (.singleCycle stepCore) [0x00500093, 0x10102023]

/-- STEP, READ_PC and STEP again in clock `second`. -/
def stepInput (second n : ℕ) : SocIn where
  rxDone := n == 0 || n == 20 || n == second
  rxData := if n == 20 then Command.readPc.code else Command.step.code

def stepEntries (second : ℕ) : List Entry :=
  [⟨.step, 0, 0, 20⟩, ⟨.request .readPc, 20, 20, second⟩, ⟨.step, second, second, second + 20⟩]

private theorem stepReached : Reached 2 stepBoard :=
  ⟨stepCore, _, fun _ => {}, 0, rfl, rfl, fun k none => absurd none (Nat.not_lt_zero k)⟩

private theorem stepWritten (second : ℕ) : written (stepEntries second) = ∅ := by
  ext a
  simp [written, stepEntries]

private theorem stepPlain (second : ℕ) : ∀ k < steps (stepEntries second),
    Plain (written (stepEntries second)) (Arch.after ⟨stepCore, stepBoard.bram.mem⟩ k) := by
  intro k below
  rw [stepWritten]
  have few : k = 0 ∨ k = 1 := by
    have two : steps (stepEntries second) = 2 := rfl
    omega
  rcases few with rfl | rfl <;>
    exact ⟨Set.notMem_empty _, by decide +kernel, by decide +kernel, fun _ => Set.notMem_empty _⟩

/-- A STEP a frame after READ_PC arrives while the reply is sent, and is lost. -/
theorem step_lost :
    Reached 2 stepBoard ∧ stepBoard.core = .singleCycle stepCore ∧
      stepBoard.dbg.fsm.state = .cmdIdle ∧ stepBoard.dbg.fsm.halt = true ∧
      HandsOff (stepInput 40) 60 ∧ Paced 2 (line (stepInput 40)) 0 (stepEntries 40) ∧
      (∀ k < steps (stepEntries 40), Plain (written (stepEntries 40))
        (Arch.after ⟨stepCore, stepBoard.bram.mem⟩ k)) ∧
      (Soc.run 2 stepBoard (stepInput 40) (ending 0 (stepEntries 40))).core ≠
        .singleCycle (Arch.after ⟨stepCore, stepBoard.bram.mem⟩
          (steps (stepEntries 40))).core := by
  refine ⟨stepReached, rfl, rfl, rfl, fun _ _ => ⟨rfl, rfl⟩, by decide +kernel, stepPlain 40, ?_⟩
  intro same
  have short : pc (Soc.run 2 stepBoard (stepInput 40) 60).core = 4 := by decide +kernel
  have long : (Arch.after ⟨stepCore, stepBoard.bram.mem⟩ 2).core.pc = 8 := by decide +kernel
  exact absurd (short.symm.trans ((congrArg pc same).trans long)) (by decide)

/-- With the reply read, both instructions are executed. -/
theorem steps_execute_readPc :
    (Soc.run 2 stepBoard (stepInput 200) 220).core =
      .singleCycle (Arch.after ⟨stepCore, stepBoard.bram.mem⟩ 2).core :=
  steps_execute (by decide) (by decide) stepReached rfl rfl rfl (stepEntries 200)
    (fun _ _ => ⟨rfl, rfl⟩) (by decide +kernel) (by decide +kernel) (stepPlain 200)

end Example

end RiscvSoc.Fpga.StepSession
