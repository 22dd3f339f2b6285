/- GID: RiscvSoc/Fpga/BoardRefinement
   generality: G
   utility: main
   digest: The board runs the program in its BRAM as the ISA says, and how fast. -/

import RiscvSoc.Fpga.BoardRun
import RiscvSoc.Isa.Rv32Program
import RiscvSoc.Testbench.ProgramImage
import Mathlib.Data.List.GetD

set_option autoImplicit false
set_option relaxedAutoImplicit false

namespace RiscvSoc.Fpga.BoardRefinement

open RiscvSoc.Clocked.Trajectory
open RiscvSoc.Clocked.Ranking
open RiscvSoc.Cpu.Decoder
open RiscvSoc.Cpu.Datapath
open RiscvSoc.Cpu.Pipeline
open RiscvSoc.Cpu.PipelineEdge
open RiscvSoc.Cpu.Progress
open RiscvSoc.Cpu.StageImage
open RiscvSoc.Cpu.IsaStep
open RiscvSoc.Cpu.MemAccess (storeFlags)
open RiscvSoc.Isa.Rv32Instr (Instr decode encoding_of_decode)
open RiscvSoc.Isa.Rv32Hart
open RiscvSoc.Isa.Rv32Program
open RiscvSoc.Memory
open RiscvSoc.Memory.ByteLanes
open RiscvSoc.Memory.ByteMemory
open RiscvSoc.Memory.DpRam (BramAddr)
open RiscvSoc.Peripherals.VgaFramebuffer (bufWords)
open RiscvSoc.Fpga.AddressMap (Cell storeTarget wordOf_toNat)
open RiscvSoc.Fpga.RiscvTop
open RiscvSoc.Fpga.BoardRun
open RiscvSoc.Testbench.TbDiff
open RiscvSoc.Testbench.Lockstep
open RiscvSoc.Testbench.Refinement
open RiscvSoc.Testbench.Throughput
open RiscvSoc.Testbench.IsaRun
open RiscvSoc.Testbench.ProgramImage

section Pace

/-- Clocks until both ports of the BRAM have caught up with the core. -/
def delay (s : Soc) (c : Core) : ℕ :=
  if c.dataPort.req && c.dataPort.addr != s.dmemAddrPrev then 1
  else if c.pc != s.imemAddrPrev then if c.idEx.valid then 2 else 1
  else 0

variable {clkPerBit : ℕ} {s : Soc} {i : SocIn} {d : Dut} {imem : Memory}

private theorem delay_le (s : Soc) (c : Core) : delay s c ≤ 2 := by
  unfold delay
  split_ifs <;> omega

private theorem delay_still {c : Core} (pc : c.pc = s.imemAddrPrev)
    (data : c.dataPort.addr = s.dmemAddrPrev) : delay s c = 0 := by
  rw [delay, pc, data]
  simp

private theorem delay_empty {c : Core} (empty : c.idEx.valid = false) : delay s c ≤ 1 := by
  rw [delay, empty]
  split_ifs <;> first | omega | contradiction

private theorem delay_step (tracks : Tracks s d) (noRst : i.rst = false) (inert : Inert d.core) :
    delay (s.posedge clkPerBit i) (d.posedge imem (benchCycle s i)).core + (!s.halt i).toNat ≤
      delay s d.core + 3 * (served d.core (d.input imem (benchCycle s i))).toNat := by
  have imemPrev : (s.posedge clkPerBit i).imemAddrPrev = d.core.pc := tracks.imemAddr noRst
  have dmemPrev : (s.posedge clkPerBit i).dmemAddrPrev = d.core.dataPort.addr :=
    congrArg DataPort.addr tracks.port
  have halt : (d.input imem (benchCycle s i)).halt = s.halt i := rfl
  have fetch : (d.input imem (benchCycle s i)).imemVld = (d.core.pc == s.imemAddrPrev) := by
    change (s.imemAddr i == _) = _
    rw [tracks.imemAddr noRst]
  have wait : d.core.memWait (d.input imem (benchCycle s i)) =
      (d.core.dataPort.req && d.core.dataPort.addr != s.dmemAddrPrev) := by
    change (d.core.dataPort.req && !((s.dataPort i).req && (s.dataPort i).addr == _)) = _
    rw [tracks.port]
    cases d.core.dataPort.req <;> simp [bne]
  change delay _ (d.core.posedge (d.input imem (benchCycle s i))) + _ ≤ _
  rw [← halt]
  have noReset : (d.input imem (benchCycle s i)).rst = false := rfl
  have noIrq : (d.input imem (benchCycle s i)).timerIrq = false := rfl
  generalize d.input imem (benchCycle s i) = j at *
  refine posedge_rule noReset fun t edge => ?_
  have small := delay_le (s.posedge clkPerBit i) t
  cases answered : served d.core j with
  | true =>
    have event := Bool.toNat_le (!j.halt)
    simp only [Bool.toNat_true]
    omega
  | false =>
    cases edge with
    | halted halt =>
      rw [halt, delay_still imemPrev.symm dmemPrev.symm]
      exact Nat.zero_le _
    | waiting run waits =>
      have now : delay s d.core = 1 := by
        rw [delay, ← wait, waits]
        rfl
      rw [now, run]
      exact Nat.add_le_add_right (delay_still imemPrev.symm dmemPrev.symm).le 1
    | flushed run ready flush =>
      have valid : d.core.idEx.valid = true := by
        apply inert.valid_of_flushBase
        simpa [Core.exFlush, Core.irqTaken, noIrq] using flush
      have stale : (d.core.pc != s.imemAddrPrev) = true := by
        simpa [served, run, ready, fetch] using answered
      have now : delay s d.core = 2 := by
        rw [delay, ← wait, ready, stale, valid]
        rfl
      rw [now, run]
      exact Nat.add_le_add_right (delay_empty rfl) 1
    | stalled run ready straight stall =>
      have stale : (d.core.pc != s.imemAddrPrev) = true := by
        simpa [served, run, ready, fetch] using answered
      have now : delay s d.core = if d.core.idEx.valid then 2 else 1 := by
        rw [delay, ← wait, ready, stale]
        rfl
      rw [now, run]
      cases valid : d.core.idEx.valid with
      | true => exact Nat.add_le_add_right (delay_empty rfl) 1
      | false =>
        rw [delay]
        simp [Core.dataPort, ExMem.dataPort, IdEx.toExMem, DataPort.req, valid, imemPrev]
    | advanced run ready straight go =>
      rw [Core.frontStall, Bool.or_eq_false_iff] at go
      have vld : j.imemVld = true := by simpa [Core.ifWait, run] using go.2
      simp [served, run, ready, vld] at answered

variable {size : ℕ} {input : ℕ → SocIn}

/-- The core is not halted in clock `k`. -/
def running (clkPerBit : ℕ) (s : Soc) (input : ℕ → SocIn) (k : ℕ) : Bool :=
  !(Soc.run clkPerBit s input k).halt (input k)

private theorem running_le (ready : Ready s) (program : TrapFree (codeOf size s))
    (confined : Confined (codeOf size s) size (goldenAfter (codeOf size s) (startOf s))) (n : ℕ)
    (free : ∀ k < n, Free clkPerBit s input k) :
    occurrences (running clkPerBit s input) 0 n ≤
      3 * occurrences (openClock (codeOf size s) (startOf s) (boardCycles clkPerBit s input)) 0 n +
        1 := by
  have paid := @occurrences_add_rank_le_credit
    (fun k => delay (Soc.run clkPerBit s input k)
      (dutAfter (codeOf size s) (startOf s) (boardCycles clkPerBit s input) k).core)
    0 n (running clkPerBit s input)
    (fun k => 3 * occurrences
      (openClock (codeOf size s) (startOf s) (boardCycles clkPerBit s input)) 0 k)
    (Nat.zero_le n) ?_
  · have first : delay s (startOf s).dut.core ≤ 1 := delay_empty rfl
    have none : ∀ e : ℕ → Bool, occurrences e 0 0 = 0 := fun e => rfl
    change occurrences _ 0 n + delay _ _ + 3 * occurrences _ 0 0 ≤
      delay s (startOf s).dut.core + _ at paid
    rw [none] at paid
    omega
  · intro k _ less
    have tracks := tracks_run ready program confined k fun j earlier => free j (by omega)
    have inert :
        Inert (dutAfter (codeOf size s) (startOf s) (boardCycles clkPerBit s input) k).core :=
      (inStep_after (startOf s) (boardCycles clkPerBit s input) program.accesses k
        fun j _ a inv => program.calm inv _).1.inert
    have step := @delay_step clkPerBit _ (input k) _ (codeOf size s) tracks (free k less).1 inert
    have opened := @occurrences_succ 0 k
      (openClock (codeOf size s) (startOf s) (boardCycles clkPerBit s input)) (Nat.zero_le k)
    have board : Soc.run clkPerBit s input (k + 1) =
        (Soc.run clkPerBit s input k).posedge clkPerBit (input k) := trajectory_succ _ _ _ k
    have bench : dutAfter (codeOf size s) (startOf s) (boardCycles clkPerBit s input) (k + 1) =
        (dutAfter (codeOf size s) (startOf s) (boardCycles clkPerBit s input) k).posedge
          (codeOf size s) (boardCycles clkPerBit s input k) := trajectory_succ _ _ _ k
    simp only [board, bench, opened]
    change delay _ (Dut.posedge _ _ (benchCycle _ _)).core + (!Soc.halt _ _).toNat + _ ≤
      _ + 3 * (_ + (served _ (Dut.input _ _ (benchCycle _ _))).toNat)
    omega

end Pace

section Programs

/-- The accesses of a confined program of `size` words. -/
def accessOk (size : ℕ) : Access 30 → Bool
  | .load _ b => decide (b.toNat < 0x4000)
  | .store o b _ =>
    match storeTarget b with
    | some (.bram a) => decide (size ≤ a.toNat) && decide (b.toNat < 0x4000)
    | some (.vgaDraw _) => decide (o = .sw)
    | some .uartTx | none => true
    | some .vgaCtrl | some (.timer _) => false

private theorem allowed_of_ok {size : ℕ} {p : DataPort} {o : StoreOp} {v : Word}
    (ok : accessOk size (.store o p.addr v) = true)
    (byteena : p.byteena = storeMask (storeFlags o).isSb (storeFlags o).isSh (storeFlags o).isSw
      (p.addr.extractLsb' 0 2)) : Allowed size p := by
  unfold Allowed
  unfold accessOk at ok
  split <;> rename_i target <;> simp only [target] at ok
  · simpa using ok
  · obtain rfl := of_decide_eq_true ok
    exact byteena
  · trivial
  · trivial
  · exact absurd ok Bool.false_ne_true
  · exact absurd ok Bool.false_ne_true

variable {imem : Memory} {start : Start} {size : ℕ}

/-- A program whose run on the ISA's machine goes on for good and makes no other access is
confined. -/
private theorem confined_of_isa (small : size ≤ 0x1000)
    (code : ∀ w : BitVec 30, w.toNat < size → imem w = start.dmem w)
    (empty : ∀ w : BitVec 30, size ≤ w.toNat → imem w = 0)
    (runs : ∀ k, ∃ u, isaAfter imem start k = some u ∧
      Proper (benchBus imem) (accessOk size) u)
    (even : ∀ k u, isaAfter imem start k = some u → oddNext imem u = false) :
    Confined imem size (goldenAfter imem start) := by
  have here : ∀ k, ∃ i, decode ((goldenAfter imem start k).instr imem) = some i ∧
      ∀ x ∈ (hartOf (goldenAfter imem start k).core).access i, accessOk size x = true := by
    intro k
    obtain ⟨u, reached, proper⟩ := runs k
    have same := golden_runs_isa imem start k u reached fun j _ => even j
    obtain ⟨t, next, -⟩ := runs (k + 1)
    have stepped : u.step csrSpace (benchBus imem) = some t := by
      have last : (isaAfter imem start k).bind (Machine.step csrSpace (benchBus imem)) = some t :=
        next
      rwa [reached] at last
    obtain ⟨i, decoded, -⟩ := Machine.step_cases stepped
    rw [← same] at decoded proper
    exact ⟨i, decoded, proper i decoded⟩
  refine ⟨small, code, ?_, ?_, ?_⟩
  · intro k
    by_contra outside
    have word : (wordIndex (goldenAfter imem start k).core.pc).toNat =
        (goldenAfter imem start k).core.pc.toNat / 4 := wordOf_toNat _
    obtain ⟨i, decoded, -⟩ := here k
    rw [Golden.instr, empty _ (by omega)] at decoded
    have none : decode (0 : Word) = none := by decide
    exact absurd (none.symm.trans decoded) (Option.some_ne_none i).symm
  · intro k load
    obtain ⟨i, decoded, proper⟩ := here k
    obtain ⟨o, access⟩ := @access_of_load (goldenAfter imem start k).core _ _
      (encoding_of_decode decoded) load
    exact of_decide_eq_true (proper _ access)
  · intro k store
    obtain ⟨i, decoded, proper⟩ := here k
    obtain ⟨o, v, access, byteena⟩ := @access_of_store (goldenAfter imem start k).core _ _
      (encoding_of_decode decoded) store
    exact allowed_of_ok (proper _ access) byteena

variable {s : Soc} {ws : List Word} {prog : List Instr}

/-- The words lie at the bottom of BRAM. -/
def Installed (ws : List Word) (s : Soc) : Prop :=
  ∀ k (inside : k < ws.length), s.bram.mem (BitVec.ofNat 12 k) = ws[k]

theorem codeOf_installed (installed : Installed ws s) : codeOf ws.length s = image ws := by
  funext w
  rw [codeOf, image]
  split_ifs with inside
  · have index : (w.setWidth 12 : BramAddr) = BitVec.ofNat 12 w.toNat := by
      apply BitVec.eq_of_toNat_eq
      rw [BitVec.toNat_setWidth, BitVec.toNat_ofNat]
    rw [index, installed _ inside, List.getD_eq_getElem _ _ inside]
  · rw [List.getD_eq_default _ _ (by omega)]

theorem installed_powerUp (core : CpuCore) (small : ws.length ≤ 0x1000) :
    Installed ws (Soc.powerUp core ws) := by
  intro k inside
  change ws.getD (BitVec.ofNat 12 k).toNat 0 = ws[k]
  rw [BitVec.toNat_ofNat, Nat.mod_eq_of_lt (by omega), List.getD_eq_getElem _ _ inside]

theorem ready_powerUp (ws : List Word) : Ready (Soc.powerUp .pipelinedZero ws) := by
  have first : (0 : BramAddr) = DpRam.wordIndex 0 := by decide
  exact ⟨⟨_, _, rfl⟩, first, first, ⟨rfl, rfl, rfl⟩, rfl, rfl⟩

/-- A program without JALR is confined when its watched run comes to a loop of one instruction
without an access outside. -/
theorem confined_of_loop (small : ws.length ≤ 0x1000) (installed : Installed ws s)
    (decoded : ws.map decode = prog.map some) (none : prog.any isJalr = false) {N : ℕ}
    {t : Machine CsrFile (ByteMem 30 × Bool)}
    (loop : ∀ j, (place 0 0 (archRegs (startOf s).regfile) (startOf s).csr
      (bytes (n := 30) (startOf s).dmem, true)).after csrSpace
        (watch (benchBus (image ws)) (accessOk ws.length)) (N + j) = some t)
    (clean : t.mem.2 = true) :
    Confined (codeOf ws.length s) ws.length (goldenAfter (codeOf ws.length s) (startOf s)) := by
  have image' := codeOf_installed installed
  rw [image']
  refine confined_of_isa small ?_ ?_ (proper_of_loop loop clean) fun _ u _ =>
    even_image decoded none u
  · intro w inside
    change image ws w = dataOf s w
    rw [← image', codeOf, dataOf, if_pos inside, if_pos (by omega)]
  · intro w outside
    rw [image, List.getD_eq_default _ _ outside]

end Programs

section Isa

variable {clkPerBit size : ℕ} {s : Soc} {input : ℕ → SocIn}

/-- The pipelined core on the board runs the program in BRAM as the ISA says: when the debug UART
keeps away from the buses, after `n` clocks its registers are those of the ISA after `a`
instructions, and BRAM and draw buffer are those of the ISA up to two instructions further on,
where every fifteen clocks without a halt count for one. -/
theorem board_runs_isa (ready : Ready s) (program : TrapFree (codeOf size s))
    (confined : Confined (codeOf size s) size (goldenAfter (codeOf size s) (startOf s))) (n : ℕ)
    (free : ∀ k ≤ n, Free clkPerBit s input k)
    (even : ∀ k < n, ∀ t, isaAfter (codeOf size s) (startOf s) k = some t →
      oddNext (codeOf size s) t = false) :
    ∃ a c, occurrences (running clkPerBit s input) 0 n < 15 * (a + 1) ∧
      a ≤ c ∧ c ≤ a + 2 ∧ c ≤ n ∧
      (∀ t, isaAfter (codeOf size s) (startOf s) a = some t →
        archRegs (Soc.run clkPerBit s input n).core.regfile = t.hart.regs) ∧
      ∀ t, isaAfter (codeOf size s) (startOf s) c = some t →
        ∃ m : Memory, t.mem = bytes (n := 30) m ∧
          (∀ w : BramAddr, (Soc.run clkPerBit s input (n + 1)).bram.mem w = m (w.setWidth 30)) ∧
          ∀ w < bufWords, (Soc.run clkPerBit s input (n + 1)).vga.buf0.mem w = m (drawIndex w) := by
  obtain ⟨a, c, pace, later, near, within, regs, mem⟩ := pipeline_runs_isa (codeOf size s)
    (startOf s) (boardCycles clkPerBit s input) program n even
  have slow := @running_le clkPerBit s size input ready program confined n
    fun k less => free k (by omega)
  have now := tracks_run ready program confined n fun k less => free k (by omega)
  have next := tracks_run ready program confined (n + 1) fun k less => free k (by omega)
  refine ⟨a, c, by omega, later, near, within, ?_, ?_⟩
  · intro t reached
    obtain ⟨core, pipelined, same⟩ := now.core
    rw [← regs t reached, pipelined]
    exact congrArg archRegs same.behind.2.2.2.2.2
  · intro t reached
    exact ⟨_, (mem t reached).symm, next.mem, next.draw⟩

/-- `addi x1, x0, 5; sw x1, 64(x0); lw x2, 64(x0)`, and a loop. -/
def storeLoad : List Word := [0x00500093, 0x04102023, 0x04002103, 0x0000006F]

def storeLoadProgram : List Instr :=
  [.imm .addi 1 0 5, .store .sw 0 1 64, .load .lw 2 0 64, .jal 0 0]

/-- The board with this program and `KEY[1]` pressed, so that the core runs. -/
def storeLoadBoard : Soc := Soc.powerUp .pipelinedZero storeLoad

def unhalted : ℕ → SocIn := fun _ => { key1 := false }

private theorem storeLoad_confined :
    Confined (codeOf storeLoad.length storeLoadBoard) storeLoad.length
      (goldenAfter (codeOf storeLoad.length storeLoadBoard) (startOf storeLoadBoard)) := by
  have decoded : storeLoad.map decode = storeLoadProgram.map some := by decide
  have code : CodeAt (watch (benchBus (image storeLoad)) (accessOk storeLoad.length)) 0
      storeLoadProgram fun _ => True := (codeAt_image (by decide) decoded).watched
  let r := archRegs (startOf storeLoadBoard).regfile
  let c := (startOf storeLoadBoard).csr
  let m := (bytes (n := 30) (startOf storeLoadBoard).dmem, true)
  let bus := watch (benchBus (image storeLoad)) (accessOk storeLoad.length)
  have first : Reaches csrSpace bus (place 0 0 r c m) (place 0 1 (r.set 1 (r.read 0 + 5)) c m) :=
    reaches_block code trivial [.imm .addi 1 0 5] (by decide) rfl
  generalize r.set 1 (r.read 0 + 5) = r1 at first
  have base : ∀ r' : Regs, r'.read 0 + (64 : BitVec 12).signExtend 32 = 64 := by
    intro r'
    rw [show r'.read 0 = 0 from r'.zero]
    rfl
  have second := @reaches_store _ _ csrSpace bus _ _ _ 1 r1 c m code trivial 0 1 .sw 64 64 rfl
    (base r1) rfl
  have third := @reaches_load _ _ csrSpace bus _ _ _ 2 r1 c
    (bus.access m (.store .sw 64 (r1.read 1))) code trivial 2 0 .lw 64 64 rfl (base r1) rfl
  obtain ⟨N, reached⟩ := (first.trans (second.trans third)).after
  exact confined_of_loop (by decide) (installed_powerUp _ (by decide)) decoded rfl
    (after_self (step_self code trivial rfl) reached) rfl

/-- In 60 clocks at least four instructions; the others are the loop. -/
theorem board_runs_isa_storeLoad :
    occurrences (running 2 storeLoadBoard unhalted) 0 60 = 60 ∧
    ∃ a c, occurrences (running 2 storeLoadBoard unhalted) 0 60 < 15 * (a + 1) ∧
      a ≤ c ∧ c ≤ a + 2 ∧ c ≤ 60 ∧
      (∀ t, isaAfter (codeOf storeLoad.length storeLoadBoard) (startOf storeLoadBoard) a = some t →
        archRegs (Soc.run 2 storeLoadBoard unhalted 60).core.regfile = t.hart.regs) ∧
      ∀ t, isaAfter (codeOf storeLoad.length storeLoadBoard) (startOf storeLoadBoard) c = some t →
        ∃ m : Memory, t.mem = bytes (n := 30) m ∧
          (∀ w : BramAddr,
            (Soc.run 2 storeLoadBoard unhalted 61).bram.mem w = m (w.setWidth 30)) ∧
          ∀ w < bufWords,
            (Soc.run 2 storeLoadBoard unhalted 61).vga.buf0.mem w = m (drawIndex w) := by
  have image' : codeOf storeLoad.length storeLoadBoard = image storeLoad :=
    codeOf_installed (installed_powerUp _ (by decide))
  have decoded : storeLoad.map decode = storeLoadProgram.map some := by decide
  have ready : Ready storeLoadBoard := ready_powerUp storeLoad
  refine ⟨?_, board_runs_isa ready ?_ storeLoad_confined 60
    (fun k _ => free_of_silent rfl (fun _ => ⟨rfl, rfl⟩) k) ?_⟩
  · rw [occurrences, Finset.filter_true_of_mem]
    · rfl
    · intro k _
      simp [running, Soc.halt, unhalted]
  · rw [image']
    exact trapFree_image (by decide +kernel)
  · intro k _ t _
    rw [image']
    exact even_image decoded rfl t

end Isa

end RiscvSoc.Fpga.BoardRefinement
