/- GID: RiscvSoc/Fpga/LoadProgram
   generality: G
   utility: main
   digest: A program loaded over the debug UART, and what the resumed core begins with. -/

import RiscvSoc.Cpu.Fetched
import RiscvSoc.Fpga.BramAccess
import RiscvSoc.Fpga.DebugSession

set_option autoImplicit false
set_option relaxedAutoImplicit false

namespace RiscvSoc.Fpga.LoadProgram

open RiscvSoc.Clocked.Trajectory
open RiscvSoc.Cpu.Decoder
open RiscvSoc.Cpu.Datapath
open RiscvSoc.Cpu.Pipeline
open RiscvSoc.Cpu.PipelineEdge
open RiscvSoc.Cpu.Fetched
open RiscvSoc.Memory.ByteLanes
open RiscvSoc.Memory.DpRam
open RiscvSoc.Peripherals.DebugUart
open RiscvSoc.Peripherals.DebugReply
open RiscvSoc.Peripherals.DebugReceive
open RiscvSoc.Peripherals.DebugRequest
open RiscvSoc.Peripherals.DebugExchange
open RiscvSoc.Fpga.RiscvTop
open RiscvSoc.Fpga.BramAccess
open RiscvSoc.Fpga.HaltedBoard
open RiscvSoc.Fpga.DebugSession
open RiscvSoc.Host.RegDebugger
open RiscvSoc.Host.CallReplies

section Image

/-- The words of a program as `load_program` is given them. -/
def image (words : List Word) : List ℤ := words.map fun w => (w.toNat : ℤ)

/-- The WRITE_MEMs of a program at address `0`. -/
def writes (words : List Word) : List Request :=
  words.zipIdx.map fun p => .writeMem (BitVec.ofNat 32 (4 * p.2)) p.1

/-- `load_program(words)`, then `resume()`. -/
def loadAndResume (words : List Word) : HostM Unit := do
  loadProgram (image words) 0
  resume

private theorem word32_toNat (w : Word) : word32 w.toNat = some w := by
  have small := w.isLt
  rw [word32, if_pos ⟨by omega, by omega⟩, BitVec.ofInt_natCast, BitVec.ofNat_toNat,
    BitVec.setWidth_eq]

private theorem writeAttempt_image (w : Word) {k : ℕ} (fits : k < 2 ^ 30) :
    attempts.writeAttempt (0 + 4 * (k : ℤ)) w.toNat =
      some (.writeMem (BitVec.ofNat 32 (4 * k)) w) := by
  have natural : (0 + 4 * (k : ℤ)) = ((4 * k : ℕ) : ℤ) := by omega
  have address : word32 ((4 * k : ℕ) : ℤ) = some (BitVec.ofNat 32 (4 * k)) := by
    rw [word32, if_pos ⟨by omega, by omega⟩, BitVec.ofInt_natCast]
  rw [attempts.writeAttempt, natural, address, word32_toNat, Option.bind_some, Option.map_some]

private theorem zipIdx_image {β : Type} (g : ℤ × ℕ → β) (words : List Word) :
    (image words).zipIdx.map g = words.zipIdx.map fun p => g (p.1.toNat, p.2) := by
  rw [image, List.zipIdx_map, List.map_map]
  rfl

private theorem attempts_image (words : List Word) (fits : words.length ≤ 2 ^ 30) :
    attempts (.loadProgram (image words) 0) = (.halt :: writes words).map some := by
  have each : words.zipIdx.map (fun p => attempts.writeAttempt (0 + 4 * (p.2 : ℤ)) p.1.toNat) =
      words.zipIdx.map fun p => some (.writeMem (BitVec.ofNat 32 (4 * p.2)) p.1) := by
    apply List.map_congr_left
    intro p inside
    have bound : p.2 < words.length := (List.mem_zipIdx' inside).1
    exact writeAttempt_image p.1 (by omega)
  rw [attempts, zipIdx_image, each, writes, List.map_cons, List.map_map]
  rfl

private theorem runOn_loadAndResume (words : List Word) (fits : words.length ≤ 2 ^ 30)
    (s : Serial) :
    runOn (loadAndResume words) s =
      (.ok (), { s with
        written := s.written ++ (Request.halt :: writes words).flatMap Request.bytes ++
          [Command.resume.code] }) := by
  have all : (attempts (.loadProgram (image words) 0)).all Option.isSome = true := by
    rw [attempts_image words fits, List.all_map]
    simp
  rw [loadAndResume, runOn_bind, runOn_loadProgram, if_pos all, requests, attempts_image words fits,
    issued_some]
  exact writes_write _ _

private theorem writes_append (words : List Word) (w : Word) :
    writes (words ++ [w]) =
      writes words ++ [.writeMem (BitVec.ofNat 32 (4 * words.length)) w] := by
  simp [writes, List.zipIdx_append]

private theorem wordIndex_eq_zero (k : ℕ) :
    wordIndex (BitVec.ofNat 32 (4 * k)) = 0 ↔ k % 4096 = 0 := by
  have index : (wordIndex (BitVec.ofNat 32 (4 * k))).toNat = k % 4096 := by
    simp only [wordIndex, BitVec.extractLsb'_toNat, BitVec.toNat_ofNat, Nat.shiftRight_eq_div_pow]
    omega
  rw [← BitVec.toNat_inj, index]
  exact Iff.rfl

private theorem lastWritten_writes (initial : BramAddr → Word) {words : List Word}
    (nonempty : words ≠ []) :
    lastWritten initial (writes words) 0 =
      words.getD (4096 * ((words.length - 1) / 4096)) 0 := by
  induction words using List.reverseRecOn with
  | nil => exact absurd rfl nonempty
  | append_singleton ws w ih =>
    rw [writes_append, lastWritten_append]
    simp only [List.length_append, List.length_singleton, Nat.add_sub_cancel]
    by_cases wraps : ws.length % 4096 = 0
    · have here : 4096 * (ws.length / 4096) = ws.length := by omega
      rw [(wordIndex_eq_zero _).mpr wraps, Function.update_self, here]
      simp
    · have other : wordIndex (BitVec.ofNat 32 (4 * ws.length)) ≠ 0 :=
        fun zero => wraps ((wordIndex_eq_zero _).mp zero)
      have before : ws ≠ [] := by
        rintro rfl
        exact wraps rfl
      have same : 4096 * ((ws.length - 1) / 4096) = 4096 * (ws.length / 4096) := by omega
      have inside : 4096 * (ws.length / 4096) < ws.length := by omega
      rw [Function.update_of_ne other.symm, ih before, same,
        List.getD_eq_getElem?_getD, List.getD_eq_getElem?_getD, List.getElem?_append_left inside]

end Image

section Specification

variable (clkPerBit : ℕ) (s : Soc) (input : ℕ → SocIn)

/-- The states a board with the pipelined core comes to from power-up, resets included. -/
def ReachablePipelined : Prop :=
  ∃ csr regfile program history n,
    s = Soc.run clkPerBit (Soc.powerUp (.pipelined (Core.reset csr regfile)) program) history n

/-- What arrives after the HALT of `load_program(words)`: its WRITE_MEMs, RESUME in clock `r`, and
then nothing for twelve clocks. -/
structure Reload (words : List Word) (es : List Exchange) (r : ℕ) : Prop where
  requests : .halt :: es.map Exchange.request = requests (.loadProgram (image words) 0)
  session : Session clkPerBit (line input) (sentBytes clkPerBit s input) 0 es
  resume : Arrive clkPerBit (line input) (finish 0 es) Command.resume.code [] r r
  silent : Silent (line input) (r + 1) (r + 13)
  calm : HandsOff input (r + 13)

/-- The inputs of the core from the clock after RESUME on. -/
def resumed (r n : ℕ) : CoreIn :=
  (Soc.run clkPerBit s input (r + 1 + n)).coreIn (input (r + 1 + n))

end Specification

section Resumed

variable {clkPerBit : ℕ} {s : Soc} {input : ℕ → SocIn} {words : List Word} {es : List Exchange}
  {r : ℕ}

/-- The debug UART in the clocks of a load: halted until RESUME is in, then not, and between the
last WRITE_MEM and the thirteenth clock after RESUME it leaves memory alone. -/
structure Control (clkPerBit : ℕ) (s : Soc) (input : ℕ → SocIn) (es : List Exchange) (r : ℕ) :
    Prop where
  halted : ∀ k ≤ r, (Soc.run clkPerBit s input k).dbg.fsm.halt = true
  running : ∀ k, r < k → k ≤ r + 13 → (Soc.run clkPerBit s input k).dbg.fsm.halt = false
  unwritten : ∀ k, finish 0 es ≤ k → k ≤ r + 13 →
    (Soc.run clkPerBit s input k).dbg.fsm.dbgMemWe = false

private theorem control_of_reload (pos : 0 < clkPerBit) (fits : clkPerBit < 2 ^ 16)
    (idle : Idle s.dbg)
    (reload : Reload clkPerBit s input words es r) : Control clkPerBit s input es r := by
  obtain ⟨-, session, resume, silent, calm⟩ := reload
  have start : finish 0 es ≤ r := resume.start
  have dbg : ∀ k ≤ r + 13, (Soc.run clkPerBit s input k).dbg =
      run clkPerBit s.dbg (debugInput clkPerBit s input) k :=
    fun k le => (dbg_run clkPerBit s calm le).1
  have noRst : ∀ n, (debugInput clkPerBit s input n).rst = false := fun _ => rfl
  have between : Idle (run clkPerBit s.dbg (debugInput clkPerBit s input) (finish 0 es)) :=
    idle_session (n := 0) pos fits calm idle es session (by omega)
  have bare : ∀ q : DebugRegs, AwaitsAll (q.command .resume) [] := fun _ => trivial
  obtain ⟨taken, -, before, -⟩ := settled_arrive pos fits noRst ⟨rfl, between.txEn, between.ready⟩
    between.state (bare _) resume
  obtain ⟨q, here, state, halt⟩ : ∃ q : DebugRegs,
      Settled q (run clkPerBit s.dbg (debugInput clkPerBit s input) (r + 1)) ∧
        q.state = .cmdIdle ∧ q.halt = false :=
    ⟨_, taken, between.state, rfl⟩
  have after : ∀ k, r < k → k ≤ r + 13 →
      Settled q (run clkPerBit s.dbg (debugInput clkPerBit s input) k) := by
    intro k lo hi
    obtain ⟨j, rfl⟩ := Nat.exists_eq_add_of_le (Nat.succ_le_of_lt lo)
    exact (idle_silent noRst here state j fun x xlo xhi => silent x xlo (by omega)).1
  refine ⟨?_, ?_, ?_⟩
  · intro k le
    rcases Nat.le_total k (finish 0 es) with early | late
    · exact halted_session (n := 0) pos fits calm idle es session (by omega) k (Nat.zero_le k) early
    · rw [dbg k (by omega), (before k late le).2, between.halt]
  · intro k lo hi
    rw [dbg k hi, halt_of_settled (after k lo hi), halt]
  · intro k lo hi
    rw [dbg k hi, DebugRegs.dbgMemWe]
    rcases Nat.lt_or_ge r k with late | early
    · rw [state_of_settled (after k late hi), state]
      rfl
    · rw [(before k lo early).1]
      rfl

variable {c : Core}

private theorem core_of_control (calm : HandsOff input (r + 13))
    (control : Control clkPerBit s input es r)
    (pipelined : s.core = .pipelined c) {k : ℕ} (le : k ≤ r + 1) :
    (Soc.run clkPerBit s input k).core = .pipelined c := by
  have still := core_halted calm (Nat.zero_le k) (by omega)
    fun j _ lt => control.halted j (by omega)
  exact still.trans pipelined

private theorem core_resumed (calm : HandsOff input (r + 13))
    (control : Control clkPerBit s input es r)
    (pipelined : s.core = .pipelined c) (n : ℕ) :
    (Soc.run clkPerBit s input (r + 1 + n)).core =
      .pipelined (core c (resumed clkPerBit s input r) n) := by
  induction n with
  | zero => exact core_of_control calm control pipelined le_rfl
  | succ n ih =>
    change CpuCore.posedge (Soc.run clkPerBit s input (r + 1 + n)).core _ = _
    rw [ih]
    rfl

private theorem bus_posedge {t : Soc} {i j : SocIn} {a b : Core} (before : t.core = .pipelined a)
    (now : (t.posedge clkPerBit i).core = .pipelined b) (rst : i.rst = false)
    (noRst : j.rst = false) :
    ((t.posedge clkPerBit i).coreIn j).imemVld = (b.pc == a.pc) ∧
      ((t.posedge clkPerBit i).coreIn j).dmemVld =
        (b.dataPort.req && b.dataPort.addr == a.dataPort.addr) := by
  have fetch : t.imemAddr i = a.pc := by simp [Soc.imemAddr, before, CpuCore.imemAddr,
    Core.imemAddr, rst]
  have access : t.dmemAddr i = a.dataPort.addr := by simp [Soc.dmemAddr, Soc.dataPort, before,
    CpuCore.dataPort]
  constructor
  · have address : (t.posedge clkPerBit i).imemAddr j = b.pc := by
      simp [Soc.imemAddr, now, CpuCore.imemAddr, Core.imemAddr, noRst]
    rw [Soc.coreIn, Soc.imemRvalid, address, ← fetch]
    rfl
  · have port : (t.posedge clkPerBit i).dataPort j = b.dataPort := by
      simp [Soc.dataPort, now, CpuCore.dataPort]
    rw [Soc.coreIn, Soc.dmemRvalid, Soc.dmemReq, Soc.dmemAddr, port, ← access]
    rfl

private theorem released_of_control (calm : HandsOff input (r + 13))
    (control : Control clkPerBit s input es r) (pipelined : s.core = .pipelined c) :
    Released c (resumed clkPerBit s input r) 12 := by
  have now := core_resumed calm control pipelined
  have last : (Soc.run clkPerBit s input r).core = .pipelined c :=
    core_of_control calm control pipelined (by omega)
  have noRst : ∀ k < r + 13, (input k).rst = false := fun k lt => (calm k lt).1
  obtain ⟨fetch, access⟩ := bus_posedge last (now 0) (noRst r (by omega)) (noRst (r + 1) (by omega))
  have next := fun (k : ℕ) (lt : k + 1 < 12) =>
    bus_posedge (now k) (now (k + 1)) (noRst (r + 1 + k) (by omega))
      (noRst (r + 1 + (k + 1)) (by omega))
  refine ⟨?_, ?_, ?_, ?_, ?_, ?_⟩
  · intro k lt
    exact noRst (r + 1 + k) (by omega)
  · intro k lt
    have running := control.running (r + 1 + k) (by omega) (by omega)
    simp [resumed, Soc.coreIn, Soc.halt, running]
  · exact fetch.trans (beq_self_eq_true _)
  · intro k lt
    exact (next k lt).1
  · intro req
    refine access.trans ?_
    change (c.dataPort.req && _) = true
    rw [req, Bool.true_and]
    exact beq_self_eq_true _
  · intro k lt req same
    refine (next k lt).2.trans ?_
    rw [req, same, Bool.true_and]
    exact beq_self_eq_true _

private theorem imemRdata_of_pc {m : ℕ} {b : Core} (now : (Soc.run clkPerBit s input (m + 1)).core =
      .pipelined b) (zero : b.pc = 0) (rst : (input (m + 1)).rst = false)
    (valid : (Soc.run clkPerBit s input (m + 1)).imemRvalid (input (m + 1)) = true) :
    (Soc.run clkPerBit s input (m + 1)).imemRdata =
      (Soc.run clkPerBit s input (m + 1)).bram.mem 0 := by
  have address : (Soc.run clkPerBit s input (m + 1)).imemAddr (input (m + 1)) = 0 := by
    simp [Soc.imemAddr, now, CpuCore.imemAddr, Core.imemAddr, rst, zero]
  have fetched : (Soc.run clkPerBit s input (m + 1)).imemRdata =
      (Soc.run clkPerBit s input (m + 1)).bram.mem
        (wordIndex ((Soc.run clkPerBit s input (m + 1)).imemAddr (input (m + 1)))) :=
    imemRdata_of_imemRvalid valid
  rw [fetched, address]
  rfl

private theorem answers_of_control (pos : 0 < clkPerBit) (fits : clkPerBit < 2 ^ 16)
    (idle : Idle s.dbg)
    (reload : Reload clkPerBit s input words es r) (control : Control clkPerBit s input es r)
    (pipelined : s.core = .pipelined c) :
    Answers c (resumed clkPerBit s input r) 12
      (lastWritten s.bram.mem (es.map Exchange.request) 0) := by
  intro k lt drained zero valid
  have late : finish 0 es ≤ r := reload.resume.start
  have now := core_resumed reload.calm control pipelined
  have calm : HandsOff input (r + 1 + k) := fun n before => reload.calm n (by omega)
  have free : Storeless clkPerBit s input (r + 1 + k) := by
    intro n before
    obtain ⟨j, le, there⟩ : ∃ j ≤ k, (Soc.run clkPerBit s input n).core =
        .pipelined (core c (resumed clkPerBit s input r) j) := by
      rcases Nat.lt_or_ge n (r + 1) with early | late
      · exact ⟨0, Nat.zero_le k, core_of_control reload.calm control pipelined early.le⟩
      · obtain ⟨j, rfl⟩ := Nat.exists_eq_add_of_le late
        exact ⟨j, by omega, now j⟩
    simp [Soc.dmemWe, Soc.dataPort, there, CpuCore.dataPort, Core.dataPort, ExMem.dataPort,
      (drained j le).exMem]
  have start : Attended clkPerBit s input [] 0 := ⟨idle, rfl, rfl⟩
  obtain ⟨⟨-, -, mem⟩, -⟩ :=
    served_session pos fits calm free start es reload.session (by omega)
  have same : (Soc.run clkPerBit s input (r + 1 + k)).bram.mem =
      lastWritten s.bram.mem (es.map Exchange.request) :=
    (mem_unwritten free (by omega) le_rfl
      fun j lo hi => control.unwritten j lo (by omega)).trans mem
  rw [← same]
  have last : r + 1 + k = r + k + 1 := by omega
  have here := now k
  simp only [resumed, Soc.coreIn] at valid ⊢
  rw [last] at here valid ⊢
  exact imemRdata_of_pc here zero (reload.calm _ (by omega)).1 valid

end Resumed

section Halt

variable {clkPerBit : ℕ} {s : Soc} {i : SocIn}

private theorem reachable_of_pipelined (reach : ReachablePipelined clkPerBit s) :
    Reachable clkPerBit s := by
  obtain ⟨csr, regfile, program, history, n, rfl⟩ := reach
  exact ⟨_, program, history, n, rfl⟩

private theorem inert_of_reachable (reach : ReachablePipelined clkPerBit s) {c : Core}
    (pipelined : s.core = .pipelined c) : Inert c := by
  obtain ⟨csr, regfile, program, history, n, rfl⟩ := reach
  have kept : ∃ b, (Soc.run clkPerBit (Soc.powerUp (.pipelined (Core.reset csr regfile)) program)
      history n).core = .pipelined b ∧ Inert b := by
    refine trajectory_invariant (fun t : Soc => ∃ b, t.core = .pipelined b ∧ Inert b)
      (fun _ _ => True) ⟨_, rfl, inert_reset csr regfile⟩ ?_ n fun _ _ => trivial
    rintro t j ⟨b, eq, inert⟩ -
    refine ⟨b.posedge (t.coreIn j), ?_, inert_next inert _⟩
    simp [Soc.posedge, eq, CpuCore.posedge]
  obtain ⟨b, eq, inert⟩ := kept
  obtain rfl : b = c := CpuCore.pipelined.inj (eq.symm.trans pipelined)
  exact inert

private theorem idle_of_halt (reach : ReachablePipelined clkPerBit s)
    (idle : s.dbg.fsm.state = .cmdIdle)
    (rst : i.rst = false) (halt : i.rxDone = true ∧ i.rxData = Command.halt.code) :
    Idle (s.posedge clkPerBit i).dbg := by
  have linked : Linked (s.posedge clkPerBit i).dbg :=
    linked_posedge (linked_of_reachable (reachable_of_pipelined reach)) (s.debugIn i)
  have next : (s.posedge clkPerBit i).dbg.fsm = (counted s.dbg.fsm).command .halt := by
    simp only [Soc.posedge, DbgUart.posedge, Soc.debugIn, rst, Bool.false_eq_true, if_false]
    exact idle_byte clkPerBit _ idle halt.1 halt.2
  exact idle_of_linked linked (by rw [next]; exact idle) (by rw [next]; rfl)

/-- `load_program` and `resume()` on any board, from the clock `i` in which its HALT byte is in:
the program's first word is the first to commit, and all that commits has been fetched after the
load, exactly if the HALT froze a pipeline that starts cold and no later word of the image wraps
around to address `0`. -/
theorem load_starts_program_iff (pos : 0 < clkPerBit) (fits : clkPerBit < 2 ^ 16)
    (reach : ReachablePipelined clkPerBit s) (idle : s.dbg.fsm.state = .cmdIdle)
    (rst : i.rst = false) (halt : i.rxDone = true ∧ i.rxData = Command.halt.code) {c : Core}
    (pipelined : s.core = .pipelined c) (w : Word) (ws : List Word)
    (short : (w :: ws).length ≤ 2 ^ 30) {input : ℕ → SocIn} {es : List Exchange} {r : ℕ}
    (reload : Reload clkPerBit (s.posedge clkPerBit i) input (w :: ws) es r) :
    let t := s.posedge clkPerBit i
    let frozen := c.posedge (s.coreIn i)
    let inputs := resumed clkPerBit t input r
    runOn (loadAndResume (w :: ws)) ⟨[], []⟩ =
        (.ok (), ⟨Request.halt.bytes ++ (es.flatMap fun e => e.request.bytes) ++
          [Command.resume.code], []⟩) ∧
      (∀ n, (Soc.run clkPerBit t input (r + 1 + n)).core = .pipelined (core frozen inputs n)) ∧
      (FirstCommit frozen inputs (some ⟨0, w⟩) ∧ AllFetched frozen inputs ↔
        ColdStart frozen (fun n => (inputs n).timerIrq) ∧
          (w :: ws).getD (4096 * (ws.length / 4096)) 0 = w) := by
  intro t frozen inputs
  have start : Idle t.dbg := idle_of_halt reach idle rst halt
  have here : t.core = .pipelined frozen := by
    simp only [t, Soc.posedge, pipelined, CpuCore.posedge, frozen]
  have control := control_of_reload pos fits start reload
  have sent : es.map Exchange.request = writes (w :: ws) := by
    have all := reload.requests
    rw [requests, attempts_image _ short, issued_some] at all
    exact (List.cons.inj all).2
  refine ⟨?_, core_resumed reload.calm control here, ?_⟩
  · rw [runOn_loadAndResume _ short, ← sent, List.flatMap_cons, List.flatMap_map]
    rfl
  · have word := answers_of_control pos fits start reload control here
    rw [sent, lastWritten_writes _ (List.cons_ne_nil w ws)] at word
    exact starts_iff (inert_next (inert_of_reachable reach pipelined) _)
      (released_of_control reload.calm control here) word w

end Halt

section Example

def byteIn (b : Byte) : SocIn := { rxDone := true, rxData := b }

/-- A board that has been resumed at power-up and has run `addi x1, x0, 5` and a jump back to it for
some clocks. -/
def runningBoard (n : ℕ) : Soc :=
  Soc.run 2 (Soc.powerUp .pipelinedZero [0x00500093, 0xffdff06f])
    (fun k => if k = 0 then byteIn Command.resume.code else {}) n

def haltByte : SocIn := byteIn Command.halt.code

/-- The bytes of `write_mem(0, 0x00700093)` and `resume()`, from 20 clocks on in steps of 20, and
40 before the last. -/
def exampleInput (n : ℕ) : SocIn :=
  let byte := (List.zip ((List.range 9).map (20 * · + 20) ++ [220])
    ((Request.writeMem 0 0x00700093).bytes ++ [Command.resume.code])).lookup n
  { rxDone := byte.isSome, rxData := byte.getD 0 }

def exampleExchanges : List Exchange := [⟨.writeMem 0 0x00700093, 20, 180, 220⟩]

private theorem exampleReload {s : Soc} (session : Session 2 (line exampleInput)
      (sentBytes 2 (s.posedge 2 haltByte) exampleInput) 0 exampleExchanges) :
    Reload 2 (s.posedge 2 haltByte) exampleInput [0x00700093] exampleExchanges 220 where
  requests := by decide
  session := session
  resume := by decide +kernel
  silent := by decide +kernel
  calm := fun _ _ => ⟨rfl, rfl⟩

/-- HALT twelve bit times after RESUME freezes an `addi x1, x0, 5` in EX. The core resumes with it,
and not with the `addi x1, x0, 7` loaded in its place. -/
theorem load_keeps_running_program :
    ∃ c, ReachablePipelined 2 (runningBoard 24) ∧ (runningBoard 24).dbg.fsm.state = .cmdIdle ∧
      (runningBoard 24).core = .pipelined c ∧
      let frozen := c.posedge ((runningBoard 24).coreIn haltByte)
      let halted := (runningBoard 24).posedge 2 haltByte
      let inputs := resumed 2 halted exampleInput 220
      Reload 2 halted exampleInput [0x00700093] exampleExchanges 220 ∧
        ¬(FirstCommit frozen inputs (some ⟨0, 0x00700093⟩) ∧ AllFetched frozen inputs) := by
  have reach : ReachablePipelined 2 (runningBoard 24) := ⟨_, _, _, _, 24, rfl⟩
  have reload := exampleReload (s := runningBoard 24) (by decide +kernel)
  have control := control_of_reload (by decide) (by decide) (idle_of_halt reach rfl rfl ⟨rfl, rfl⟩)
    reload
  refine ⟨_, reach, rfl, rfl, ?_⟩
  intro frozen halted inputs
  refine ⟨reload, ?_⟩
  intro starts
  have old : frozen.idEx.valid = true := by decide +kernel
  exact not_allFetched_of_valid (released_of_control reload.calm control rfl) (by decide)
    (Or.inl old) starts.2

/-- The same program loaded before the core has run at all. -/
theorem load_starts_program_iff_powerUp :
    let board := runningBoard 0
    let frozen := (Core.reset zeroCsr fun _ => 0).posedge (board.coreIn haltByte)
    let inputs := resumed 2 (board.posedge 2 haltByte) exampleInput 220
    FirstCommit frozen inputs (some ⟨0, 0x00700093⟩) ∧ AllFetched frozen inputs := by
  have reach : ReachablePipelined 2 (runningBoard 0) := ⟨_, _, _, fun _ => {}, 0, rfl⟩
  have starts := (load_starts_program_iff (by decide) (by decide) reach rfl rfl ⟨rfl, rfl⟩ rfl
    0x00700093 [] (by decide) (exampleReload (by decide +kernel))).2.2
  refine starts.mpr ⟨?_, rfl⟩
  exact ⟨rfl, rfl, rfl, by decide⟩

end Example

end RiscvSoc.Fpga.LoadProgram
