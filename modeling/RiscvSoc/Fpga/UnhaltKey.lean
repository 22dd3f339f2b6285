/- GID: RiscvSoc/Fpga/UnhaltKey
   generality: G
   utility: main
   digest: KEY[1] against the debug UART: when core and debugger share BRAM port B. -/

import RiscvSoc.Fpga.BramAccess
import RiscvSoc.Fpga.HaltedBoard

set_option autoImplicit false
set_option relaxedAutoImplicit false

namespace RiscvSoc.Fpga.UnhaltKey

open RiscvSoc.Clocked.Trajectory
open RiscvSoc.Cpu.Decoder
open RiscvSoc.Memory.ByteLanes
open RiscvSoc.Memory.DpRam
open RiscvSoc.Peripherals
open RiscvSoc.Peripherals.Uart
open RiscvSoc.Peripherals.DebugUart
open RiscvSoc.Peripherals.DebugReceive
open RiscvSoc.Fpga.RiscvTop
open RiscvSoc.Fpga.BramAccess
open RiscvSoc.Fpga.HaltedBoard

section Specification

/-- The core completes a store to BRAM in this clock. -/
structure StoreDone (s : Soc) (i : SocIn) : Prop where
  running : s.halt i = false
  we : s.dmemWe i = true
  sel : s.bramSel i = true
  rvalid : s.dmemRvalid i = true

/-- The core completes a load from BRAM in this clock. -/
structure LoadDone (s : Soc) (i : SocIn) : Prop where
  running : s.halt i = false
  re : s.dmemRe i = true
  sel : s.bramSel i = true
  rvalid : s.dmemRvalid i = true

variable (clkPerBit : ℕ) (s : Soc) (input : ℕ → SocIn)

/-- The debugger has port B only while the core is halted, and what the core completes on the
port is done: a store is written, and a load returns the addressed word. -/
structure Apart : Prop where
  halted : ∀ n, (Soc.run clkPerBit s input n).dbg.fsm.dbgMemValid = true →
    (Soc.run clkPerBit s input n).halt (input n) = true
  stored : ∀ n, StoreDone (Soc.run clkPerBit s input n) (input n) →
    (Soc.run clkPerBit s input (n + 1)).bram.mem =
      writeMasked (Soc.run clkPerBit s input n).bram.mem
        (wordIndex ((Soc.run clkPerBit s input n).dmemAddr (input n)))
        ((Soc.run clkPerBit s input n).dmemWdata (input n))
        ((Soc.run clkPerBit s input n).dmemByteena (input n))
  loaded : ∀ n, LoadDone (Soc.run clkPerBit s input n) (input n) →
    (Soc.run clkPerBit s input n).ldData (input n) =
      (Soc.run clkPerBit s input n).bram.mem
        (wordIndex ((Soc.run clkPerBit s input n).dmemAddr (input n)))

/-- KEY[1] is up while the debugger has the port, and does not let the core end a load one clock
later, unless the word the debugger has addressed is the same. -/
def KeyUp (n : ℕ) : Prop :=
  (Soc.run clkPerBit s input n).dbg.fsm.dbgMemValid = true →
    (input n).key1 = true ∧
      (LoadDone (Soc.run clkPerBit s input (n + 1)) (input (n + 1)) →
        (Soc.run clkPerBit s input (n + 1)).bram.mem
            (wordIndex (Soc.run clkPerBit s input n).dbg.fsm.memAddr) =
          (Soc.run clkPerBit s input (n + 1)).bram.mem
            (wordIndex ((Soc.run clkPerBit s input (n + 1)).dmemAddr (input (n + 1)))))

/-- Port B as a reset or the configuration leaves it: no access under way, and its address
register agrees with the one that tells whether the address has moved. -/
structure PortFree (s : Soc) : Prop where
  access : s.dbg.fsm.HaltedAccess
  address : s.bram.addressBR = wordIndex s.dmemAddrPrev

private theorem portFree_powerUp (core : CpuCore) (program : List Word) :
    PortFree (Soc.powerUp core program) := by
  constructor
  · intro access
    rfl
  · change (0 : BramAddr) = wordIndex 0
    decide

end Specification

section Runs

variable {clkPerBit : ℕ} {s : Soc} {input : ℕ → SocIn}

private theorem haltedAccess_soc (free : PortFree s) (n : ℕ) :
    (Soc.run clkPerBit s input n).dbg.fsm.HaltedAccess := by
  induction n with
  | zero => exact free.access
  | succ n ih => exact DbgUart.haltedAccess_posedge ih _

private theorem halt_of_dbgMemValid (free : PortFree s) {n : ℕ}
    (valid : (Soc.run clkPerBit s input n).dbg.fsm.dbgMemValid = true) :
    (Soc.run clkPerBit s input n).halt (input n) = (input n).key1 := by
  have halt := haltedAccess_soc free n (DebugRegs.inAccess_of_dbgMemValid valid)
  rw [Soc.halt, halt, Bool.true_and]

private theorem ldData_registered {t : Soc} {i : SocIn} (load : LoadDone t i) :
    t.ldData i = t.bram.mem t.bram.addressBR := by
  rw [Soc.ldData, if_pos load.sel, Soc.bramRdData, Bram.qB]

private theorem addressBR_succ (n : ℕ) :
    (Soc.run clkPerBit s input (n + 1)).bram.addressBR =
      wordIndex (if (Soc.run clkPerBit s input n).dbg.fsm.dbgMemValid then
        (Soc.run clkPerBit s input n).dbg.fsm.memAddr
      else (Soc.run clkPerBit s input n).dmemAddr (input n)) := rfl

private theorem dmemAddr_of_load {n : ℕ}
    (load : LoadDone (Soc.run clkPerBit s input (n + 1)) (input (n + 1))) :
    (Soc.run clkPerBit s input (n + 1)).dmemAddr (input (n + 1)) =
      (Soc.run clkPerBit s input n).dmemAddr (input n) := by
  have rvalid := load.rvalid
  simp only [Soc.dmemRvalid, Bool.and_eq_true, beq_iff_eq] at rvalid
  exact rvalid.2

/-- Core and debugger stay apart exactly as long as KEY[1] is left alone around the clocks in
which the debugger has the port. -/
theorem apart_iff_keyUp (free : PortFree s) :
    Apart clkPerBit s input ↔ ∀ n, KeyUp clkPerBit s input n := by
  constructor
  · intro apart n valid
    constructor
    · rw [← halt_of_dbgMemValid free valid]
      exact apart.halted n valid
    · intro load
      rw [← apart.loaded (n + 1) load, ldData_registered load, addressBR_succ, if_pos valid]
  · intro keyUp
    constructor
    · intro n valid
      rw [halt_of_dbgMemValid free valid]
      exact (keyUp n valid).1
    · intro n store
      refine mem_of_store ?_ store.we store.sel
      rw [← Bool.not_eq_true]
      intro valid
      have running := store.running
      rw [halt_of_dbgMemValid free valid, (keyUp n valid).1] at running
      exact absurd running (by simp)
    · intro n load
      rw [ldData_registered load]
      cases n with
      | zero =>
        have rvalid := load.rvalid
        simp only [Soc.dmemRvalid, Bool.and_eq_true, beq_iff_eq] at rvalid
        rw [rvalid.2]
        exact congrArg s.bram.mem free.address
      | succ n =>
        rw [addressBR_succ]
        by_cases valid : (Soc.run clkPerBit s input n).dbg.fsm.dbgMemValid = true
        · rw [if_pos valid]
          exact (keyUp n valid).2 load
        · rw [if_neg valid, dmemAddr_of_load load]

end Runs

section Example

/-- `lw x1, 4(x0)`, and the 5 it loads. -/
def unhaltProgram : List Word := [0x00402083, 0x00000005]

def unhaltBoard : Soc := Soc.powerUp .singleCycleZero unhaltProgram

/-- READ_MEM of address 0, one byte in ten bit times, and KEY[1] pressed in the second clock after
the last byte. -/
def unhaltInput (n : ℕ) : SocIn where
  key1 := n != 10852
  rxDone := n % 2170 == 0 && decide (0 < n ∧ n ≤ 10850)
  rxData := if n = 2170 then Command.readMem.code else 0

theorem apart_iff_keyUp_unhaltBoard :
    Apart clkPerBit unhaltBoard unhaltInput ↔ ∀ n, KeyUp clkPerBit unhaltBoard unhaltInput n :=
  apart_iff_keyUp (portFree_powerUp _ _)

private theorem unhaltBoard_calm : HandsOff unhaltInput 10852 := by
  intro n before
  exact ⟨rfl, by simp only [unhaltInput, bne_iff_ne]; omega⟩

private theorem unhaltBoard_arrive :
    Arrive clkPerBit (line unhaltInput) 0 Command.readMem.code [0, 0, 0, 0]
    2170 10850 := by
  have quiet : ∀ k, Silent (line unhaltInput) (2170 * k + 1) (2170 * (k + 1)) := by
    intro k n lo hi
    have none : (unhaltInput n).rxDone = false := by
      simp only [unhaltInput, Bool.and_eq_false_iff, beq_eq_false_iff_ne]
      omega
    simp [line, none]
  have zero : ∀ k, 2 ≤ k → k ≤ 5 → line unhaltInput (2170 * k) = some 0 := by
    intro k lo hi
    have done : (unhaltInput (2170 * k)).rxDone = true := by
      simp only [unhaltInput, Bool.and_eq_true, beq_iff_eq, decide_eq_true_eq]
      omega
    rw [line, if_pos done]
    simp only [unhaltInput]
    rw [if_neg (by omega)]
  have gap : ∀ k, 2170 * k + clkPerBit * frameBitPeriods ≤ 2170 * (k + 1) ∧
      2170 * (k + 1) < 2170 * k + clkPerBit * timeoutBitPeriods := by
    intro k
    simp only [clkPerBit, frameBitPeriods, timeoutBitPeriods]
    omega
  exact
    { start := by decide
      silent := by
        intro n lo hi
        by_cases first : n = 0
        · subst first
          rfl
        · exact quiet 0 n (by omega) hi
      code := rfl
      follow := ⟨4340, (gap 1).1, (gap 1).2, quiet 1, zero 2 (by decide) (by decide),
        6510, (gap 2).1, (gap 2).2, quiet 2, zero 3 (by decide) (by decide),
        8680, (gap 3).1, (gap 3).2, quiet 3, zero 4 (by decide) (by decide),
        10850, (gap 4).1, (gap 4).2, quiet 4, zero 5 (by decide) (by decide), rfl⟩ }

private theorem unhaltBoard_dbg :
    (∀ n < 10852, (Soc.run clkPerBit unhaltBoard unhaltInput n).dbg.fsm.halt = true ∧
      (Soc.run clkPerBit unhaltBoard unhaltInput n).dbg.fsm.dbgMemWe = false) ∧
    (Soc.run clkPerBit unhaltBoard unhaltInput 10851).dbg.fsm.dbgMemValid = true ∧
    (Soc.run clkPerBit unhaltBoard unhaltInput 10851).dbg.fsm.memAddr = 0 := by
  have here : Settled (DebugRegs.reset 0) (DebugReply.run clkPerBit unhaltBoard.dbg
      (debugInput clkPerBit unhaltBoard unhaltInput) 0) := ⟨rfl, rfl, ⟨rfl, rfl⟩⟩
  have all : AwaitsAll ((DebugRegs.reset 0).command .readMem) [0, 0, 0, 0] :=
    ⟨rfl, rfl, rfl, rfl, trivial⟩
  obtain ⟨settled, -, before, during⟩ :=
    settled_arrive (by decide) (by decide) (fun _ => rfl) here rfl all unhaltBoard_arrive
  have same : ∀ n ≤ 10852, (Soc.run clkPerBit unhaltBoard unhaltInput n).dbg = DebugReply.run
      clkPerBit unhaltBoard.dbg (debugInput clkPerBit unhaltBoard unhaltInput) n := by
    intro n le
    exact (dbg_run clkPerBit unhaltBoard unhaltBoard_calm le).1
  have state : (Soc.run clkPerBit unhaltBoard unhaltInput 10851).dbg.fsm.state = .memReadWait := by
    rw [same 10851 (by decide), state_of_settled settled]
    rfl
  refine ⟨?_, by rw [DebugRegs.dbgMemValid, state]; rfl, ?_⟩
  · intro n inside
    rcases Nat.lt_or_ge 10850 n with last | le
    · obtain rfl : n = 10851 := by omega
      refine ⟨?_, by rw [DebugRegs.dbgMemWe, state]; rfl⟩
      rw [same 10851 (by decide), halt_of_settled settled]
      rfl
    · rw [same n (by omega), DebugRegs.dbgMemWe]
      rcases Nat.lt_or_ge 2170 n with args | idle
      · obtain ⟨awaits, halt⟩ := during n args le
        refine ⟨halt, beq_eq_false_iff_ne.mpr fun pulse => ?_⟩
        rw [DebugRegs.awaits, pulse] at awaits
        exact absurd awaits Bool.false_ne_true
      · obtain ⟨command, halt⟩ := before n (Nat.zero_le n) idle
        rw [command, halt]
        exact ⟨rfl, rfl⟩
  · rw [same 10851 (by decide), memAddr_of_settled settled]
    rfl

private theorem unhaltBoard_parked {n : ℕ} (inside : n ≤ 10852) :
    (Soc.run clkPerBit unhaltBoard unhaltInput n).core = .singleCycleZero ∧
    (Soc.run clkPerBit unhaltBoard unhaltInput n).imemRdata = 0x00402083 ∧
    (Soc.run clkPerBit unhaltBoard unhaltInput n).bram.mem = unhaltBoard.bram.mem := by
  have core : ∀ n ≤ 10852,
      (Soc.run clkPerBit unhaltBoard unhaltInput n).core = .singleCycleZero := by
    intro n le
    exact core_halted unhaltBoard_calm (Nat.zero_le n) le
      fun k _ less => (unhaltBoard_dbg.1 k (by omega)).1
  have fetch : ∀ n ≤ 10852, (Soc.run clkPerBit unhaltBoard unhaltInput n).bram.addressAR = 0 := by
    intro n le
    cases n with
    | zero => rfl
    | succ n =>
      change wordIndex ((Soc.run clkPerBit unhaltBoard unhaltInput n).core.imemAddr false) = 0
      rw [core n (by omega)]
      rfl
  induction n with
  | zero => exact ⟨rfl, rfl, rfl⟩
  | succ n ih =>
    obtain ⟨-, instr, mem⟩ := ih (by omega)
    have loads : Storeless clkPerBit
        (Soc.run clkPerBit unhaltBoard unhaltInput n) (fun _ => unhaltInput n) 1 := by
      intro k small
      obtain rfl : k = 0 := by omega
      change ((Soc.run clkPerBit unhaltBoard unhaltInput n).core.dataPort false
        (Soc.run clkPerBit unhaltBoard unhaltInput n).imemRdata).we = false
      rw [core n (by omega), instr]
      rfl
    have still := mem_clock loads (show 0 < 1 by decide)
    have noPulse := (unhaltBoard_dbg.1 n (by omega)).2
    have kept : (Soc.run clkPerBit unhaltBoard unhaltInput (n + 1)).bram.mem =
        unhaltBoard.bram.mem := by
      rw [← mem]
      refine still.trans ?_
      rw [show (Soc.run clkPerBit (Soc.run clkPerBit unhaltBoard unhaltInput n)
        (fun _ => unhaltInput n) 0).dbg.fsm.dbgMemWe = false from noPulse]
      rfl
    refine ⟨core (n + 1) inside, ?_, kept⟩
    rw [Soc.imemRdata, Bram.qA, kept, fetch (n + 1) inside]
    rfl

/-- The core, let run in a clock in which the debugger has the port, takes the word that the
debugger reads for its own. -/
theorem unhaltBoard_collides :
    LoadDone (Soc.run clkPerBit unhaltBoard unhaltInput 10852) (unhaltInput 10852) ∧
    (Soc.run clkPerBit unhaltBoard unhaltInput 10852).dmemAddr (unhaltInput 10852) = 4 ∧
    (Soc.run clkPerBit unhaltBoard unhaltInput 10852).bram.mem 1 = 5 ∧
    (Soc.run clkPerBit unhaltBoard unhaltInput 10852).ldData (unhaltInput 10852) = 0x00402083 ∧
    ¬Apart clkPerBit unhaltBoard unhaltInput := by
  have port : ∀ n ≤ 10852,
      (Soc.run clkPerBit unhaltBoard unhaltInput n).dataPort (unhaltInput n) =
        (⟨0, fun _ => 0, zeroCsr⟩ : Cpu.SingleCycle.ScCore).dataPort 0x00402083 := by
    intro n le
    obtain ⟨core, instr, -⟩ := unhaltBoard_parked le
    rw [Soc.dataPort, core, instr]
    rfl
  have addr : ∀ n ≤ 10852,
      (Soc.run clkPerBit unhaltBoard unhaltInput n).dmemAddr (unhaltInput n) = 4 := by
    intro n le
    rw [Soc.dmemAddr, port n le]
    decide
  have mem : (Soc.run clkPerBit unhaltBoard unhaltInput 10852).bram.mem 1 = 5 := by
    rw [(unhaltBoard_parked le_rfl).2.2]
    rfl
  have load : LoadDone (Soc.run clkPerBit unhaltBoard unhaltInput 10852) (unhaltInput 10852) := by
    refine ⟨by simp [Soc.halt, unhaltInput], ?_, ?_, ?_⟩
    · rw [Soc.dmemRe, port 10852 le_rfl]
      decide
    · rw [Soc.bramSel, addr 10852 le_rfl]
      decide
    · have prev : (Soc.run clkPerBit unhaltBoard unhaltInput 10852).dmemAddrPrev = 4 :=
        (Soc.dmemAddrPrev_succ _ _ _ 10851).trans (addr 10851 (by decide))
      rw [Soc.dmemRvalid, Soc.dmemReq, port 10852 le_rfl, addr 10852 le_rfl, prev]
      decide
  have data : (Soc.run clkPerBit unhaltBoard unhaltInput 10852).ldData (unhaltInput 10852) =
      0x00402083 := by
    rw [ldData_registered load, addressBR_succ, if_pos unhaltBoard_dbg.2.1, unhaltBoard_dbg.2.2,
      (unhaltBoard_parked le_rfl).2.2]
    rfl
  refine ⟨load, addr 10852 le_rfl, mem, data, ?_⟩
  intro apart
  have own := apart.loaded 10852 load
  rw [data, addr 10852 le_rfl] at own
  exact absurd (own.trans mem) (by decide)

end Example

end RiscvSoc.Fpga.UnhaltKey
