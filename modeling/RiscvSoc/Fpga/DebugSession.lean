/- GID: RiscvSoc/Fpga/DebugSession
   generality: G
   utility: main
   digest: The host inspecting a halted board through the debug UART, call after call. -/

import RiscvSoc.Fpga.HaltedBoard
import RiscvSoc.Host.CallReplies

set_option autoImplicit false
set_option relaxedAutoImplicit false

namespace RiscvSoc.Fpga.DebugSession

open RiscvSoc.Clocked.Trajectory
open RiscvSoc.Cpu.Decoder
open RiscvSoc.Memory.ByteLanes
open RiscvSoc.Memory.DpRam
open RiscvSoc.Peripherals.Uart
open RiscvSoc.Peripherals.DebugUart
open RiscvSoc.Peripherals.DebugReply
open RiscvSoc.Peripherals.DebugReceive
open RiscvSoc.Peripherals.DebugRequest
open RiscvSoc.Peripherals.DebugExchange
open RiscvSoc.Fpga.RiscvTop
open RiscvSoc.Fpga.HaltedBoard
open RiscvSoc.Host.RegDebugger
open RiscvSoc.Host.CallReplies

section Specification

variable (clkPerBit : ℕ) (s : Soc) (input : ℕ → SocIn)

def answers : List Request → List Exchange → List Word
  | _, [] => []
  | before, e :: es =>
    answer clkPerBit s input before e ++ answers (before ++ [e.request]) es

/-- The board's end of a session: every command is taken in from `CMD_IDLE` and to its last byte,
its reply is sent and nothing else, and the FSM is back in `CMD_IDLE`. -/
def Served : List Request → ℕ → List Exchange → Prop
  | _, _, [] => True
  | before, n, e :: es =>
    (Soc.run clkPerBit s input e.first).dbg.fsm.state = .cmdIdle ∧
      (∀ k, e.first < k → k ≤ e.last → (Soc.run clkPerBit s input k).dbg.fsm.awaits = true) ∧
      (Soc.run clkPerBit s input e.stop).dbg.fsm.state = .cmdIdle ∧
      sentBytes clkPerBit s input e.stop = sentBytes clkPerBit s input n ++
        (answer clkPerBit s input before e).flatMap wordBytes ∧
      Served (before ++ [e.request]) e.stop es

/-- A call of `RegDebugger` with the exchanges it makes. -/
structure Turn where
  call : Call
  exchanges : List Exchange

def Turn.requests (t : Turn) : List Request := t.exchanges.map Exchange.request

/-- Each call with the words that come back for it. -/
def conversation : List Request → List Turn → List (Call × List Word)
  | _, [] => []
  | before, t :: ts =>
    (t.call, answers clkPerBit s input before t.exchanges) ::
      conversation (before ++ t.requests) ts

/-- The states a board comes to from power-up, resets included. -/
def Reachable : Prop :=
  ∃ core program history n, s = Soc.run clkPerBit (Soc.powerUp core program) history n

end Specification

section Sessions

variable {clkPerBit : ℕ} {s : Soc} {input : ℕ → SocIn} {clocks n : ℕ} {before : List Request}

theorem linked_of_reachable (reach : Reachable clkPerBit s) : Linked s.dbg := by
  obtain ⟨core, program, history, n, rfl⟩ := reach
  refine trajectory_invariant (fun t : Soc => Linked t.dbg) (fun _ _ => True) ?_
    (fun t i inv _ => linked_posedge inv _) n fun _ _ => trivial
  constructor <;> simp [Soc.powerUp, DebugRegs.reset, idleTx]

/-- Between two commands: the debug UART is idle, the core stands still, and memory is what the
commands so far have made of it. -/
structure Attended (clkPerBit : ℕ) (s : Soc) (input : ℕ → SocIn) (before : List Request)
    (n : ℕ) : Prop where
  idle : Idle (run clkPerBit s.dbg (debugInput clkPerBit s input) n)
  core : (Soc.run clkPerBit s input n).core = s.core
  mem : (Soc.run clkPerBit s input n).bram.mem = lastWritten s.bram.mem before

private theorem mem_exchange (calm : HandsOff input clocks)
    (free : Storeless clkPerBit s input clocks)
    {e : Exchange} (handled : Handled clkPerBit s.dbg (debugInput clkPerBit s input) n e)
    (inside : e.stop ≤ clocks)
    (mem : (Soc.run clkPerBit s input n).bram.mem = lastWritten s.bram.mem before) :
    (Soc.run clkPerBit s input (e.last + 1)).bram.mem = lastWritten s.bram.mem before ∧
      ∀ k, e.last + 2 ≤ k → k ≤ e.stop → (Soc.run clkPerBit s input k).bram.mem =
        lastWritten s.bram.mem (before ++ [e.request]) := by
  have dbg := dbg_upto clkPerBit s calm inside
  have order := handled.order
  have frame := handled.frame
  have received := handled.received
  have early : ∀ k, n ≤ k → k < e.last + 1 →
      (Soc.run clkPerBit s input k).dbg.fsm.dbgMemWe = false := by
    intro k lo hi
    rw [dbg k (by omega)]
    exact handled.early k lo (by omega)
  have taken : (Soc.run clkPerBit s input (e.last + 1)).bram.mem = lastWritten s.bram.mem before :=
    (mem_unwritten free (by omega) (by omega) early).trans mem
  refine ⟨taken, ?_⟩
  intro k lo hi
  have late : ∀ j, e.last + 2 ≤ j → j < k →
      (Soc.run clkPerBit s input j).dbg.fsm.dbgMemWe = false := by
    intro j jlo jhi
    rw [dbg j (by omega)]
    exact handled.late j (by omega) (by omega)
  have write := mem_clock free (show e.last + 1 < clocks by omega)
  rw [mem_unwritten free lo (by omega) late, lastWritten_append, ← taken]
  refine write.trans ?_
  rw [dbg _ (by omega)]
  cases request : e.request with
  | writeMem addr data =>
    rw [request] at received
    have we : (run clkPerBit s.dbg (debugInput clkPerBit s input) (e.last + 1)).fsm.dbgMemWe =
      true := (congrArg DebugRegs.dbgMemWe received.fsm :)
    have address : (run clkPerBit s.dbg (debugInput clkPerBit s input) (e.last + 1)).fsm.memAddr =
      addr := (congrArg DebugRegs.memAddr received.fsm :)
    have word : (run clkPerBit s.dbg (debugInput clkPerBit s input) (e.last + 1)).fsm.memWdata =
      data := (congrArg DebugRegs.memWdata received.fsm :)
    rw [if_pos we, address, word]
  | _ =>
    rw [handled.reads fun _ _ => by simp [request]]
    rfl

/-- One command of a session, on the debug UART. -/
theorem handled_session (pos : 0 < clkPerBit) (fits : clkPerBit < 2 ^ 16)
    (calm : HandsOff input clocks)
    (idle : Idle (run clkPerBit s.dbg (debugInput clkPerBit s input) n)) {e : Exchange}
    {es : List Exchange}
    (session : Session clkPerBit (line input) (sentBytes clkPerBit s input) n (e :: es))
    (inside : e.stop ≤ clocks) :
    Handled clkPerBit s.dbg (debugInput clkPerBit s input) n e := by
  obtain ⟨arrive, silent, frame, read, -⟩ := session
  have order := le_of_follow arrive.follow
  have start := arrive.start
  rw [(dbg_run clkPerBit s calm (show n ≤ clocks by omega)).2,
    (dbg_run clkPerBit s calm (show e.stop - 1 ≤ clocks by omega)).2] at read
  exact handled_exchange pos fits (fun _ => rfl) idle arrive silent frame read

/-- The core is halted throughout a session. -/
theorem halted_session (pos : 0 < clkPerBit) (fits : clkPerBit < 2 ^ 16)
    (calm : HandsOff input clocks)
    (idle : Idle (run clkPerBit s.dbg (debugInput clkPerBit s input) n)) (es : List Exchange)
    (session : Session clkPerBit (line input) (sentBytes clkPerBit s input) n es)
    (inside : finish n es ≤ clocks) (k : ℕ) (lo : n ≤ k) (hi : k ≤ finish n es) :
    (Soc.run clkPerBit s input k).dbg.fsm.halt = true := by
  induction es generalizing n with
  | nil =>
    obtain rfl : k = n := le_antisymm hi lo
    rw [(dbg_run clkPerBit s calm (n := k) inside).1]
    exact idle.halt
  | cons e es ih =>
    have rest := session.2.2.2.2
    have past := (le_finish rest).trans inside
    have handled := handled_session pos fits calm idle session past
    by_cases early : k ≤ e.stop
    · rw [(dbg_run clkPerBit s calm (early.trans past)).1]
      exact handled.halt k lo early
    · exact ih handled.idle rest inside (by omega) hi

/-- The debug UART is idle at the end of a session. -/
theorem idle_session (pos : 0 < clkPerBit) (fits : clkPerBit < 2 ^ 16)
    (calm : HandsOff input clocks)
    (idle : Idle (run clkPerBit s.dbg (debugInput clkPerBit s input) n)) (es : List Exchange)
    (session : Session clkPerBit (line input) (sentBytes clkPerBit s input) n es)
    (inside : finish n es ≤ clocks) :
    Idle (run clkPerBit s.dbg (debugInput clkPerBit s input) (finish n es)) := by
  induction es generalizing n with
  | nil => exact idle
  | cons e es ih =>
    have rest := session.2.2.2.2
    have handled := handled_session pos fits calm idle session ((le_finish rest).trans inside)
    exact ih handled.idle rest inside

private theorem attended_exchange (pos : 0 < clkPerBit) (fits : clkPerBit < 2 ^ 16)
    (calm : HandsOff input clocks) (free : Storeless clkPerBit s input clocks)
    (attended : Attended clkPerBit s input before n) {e : Exchange} {es : List Exchange}
    (session : Session clkPerBit (line input) (sentBytes clkPerBit s input) n (e :: es))
    (inside : e.stop ≤ clocks) :
    Attended clkPerBit s input (before ++ [e.request]) e.stop ∧
      (Soc.run clkPerBit s input e.first).dbg.fsm.state = .cmdIdle ∧
      (∀ k, e.first < k → k ≤ e.last → (Soc.run clkPerBit s input k).dbg.fsm.awaits = true) ∧
      (Soc.run clkPerBit s input e.stop).dbg.fsm.state = .cmdIdle ∧
      sentBytes clkPerBit s input e.stop = sentBytes clkPerBit s input n ++
        (answer clkPerBit s input before e).flatMap wordBytes := by
  have handled := handled_session pos fits calm attended.idle session inside
  have dbg := dbg_upto clkPerBit s calm inside
  have order := handled.order
  have frame := handled.frame
  have past := handled.past
  have halt : ∀ k, n ≤ k → k ≤ e.stop → (Soc.run clkPerBit s input k).dbg.fsm.halt = true := by
    intro k lo hi
    rw [dbg k hi]
    exact handled.halt k lo hi
  have core : ∀ k, n ≤ k → k ≤ e.stop → (Soc.run clkPerBit s input k).core = s.core := by
    intro k lo hi
    have still := core_halted calm lo (by omega) fun j jlo jhi => halt j jlo (by omega)
    exact still.trans attended.core
  obtain ⟨taken, written⟩ := mem_exchange calm free handled inside attended.mem
  have mem : (∀ addr data, e.request ≠ .writeMem addr data) →
      ∀ k, e.last < k → k ≤ e.last + 1 + e.request.replyClocks clkPerBit →
        (Soc.run clkPerBit s input k).bram.mem = lastWritten s.bram.mem before := by
    intro reads k lo hi
    by_cases first : k = e.last + 1
    · rw [first, taken]
    · rw [written k (by omega) (by omega), lastWritten_reads _ _ reads]
  have words := latchedWords_board pos fits calm free attended.idle.halt before e handled.received
    (by omega) (fun k lo hi => core k (by omega) (by omega)) mem
  refine ⟨⟨handled.idle, core _ (by omega) le_rfl, written _ frame le_rfl⟩, ?_, ?_, ?_, ?_⟩
  · rw [dbg _ (by omega)]
    exact handled.first
  · intro k lo hi
    rw [dbg k (by omega)]
    exact handled.awaits k lo hi
  · rw [dbg _ le_rfl]
    exact handled.idle.state
  · rw [(dbg_run clkPerBit s calm inside).2,
      (dbg_run clkPerBit s calm (show n ≤ clocks by omega)).2, handled.out, words]

/-- Every command of a session is served. -/
theorem served_session (pos : 0 < clkPerBit) (fits : clkPerBit < 2 ^ 16)
    (calm : HandsOff input clocks) (free : Storeless clkPerBit s input clocks)
    (attended : Attended clkPerBit s input before n) (es : List Exchange)
    (session : Session clkPerBit (line input) (sentBytes clkPerBit s input) n es)
    (inside : finish n es ≤ clocks) :
    Attended clkPerBit s input (before ++ es.map Exchange.request) (finish n es) ∧
      Served clkPerBit s input before n es ∧
      sentBytes clkPerBit s input (finish n es) = sentBytes clkPerBit s input n ++
        (answers clkPerBit s input before es).flatMap wordBytes := by
  induction es generalizing n before with
  | nil => exact ⟨by simpa [finish] using attended, trivial, by simp [answers, finish]⟩
  | cons e es ih =>
    have rest := session.2.2.2.2
    have past := (le_finish rest).trans inside
    obtain ⟨next, first, awaits, idle, log⟩ :=
      attended_exchange pos fits calm free attended session past
    obtain ⟨last, served, out⟩ := ih next rest inside
    refine ⟨by simpa [finish] using last, ⟨first, awaits, idle, log, served⟩, ?_⟩
    rw [finish, out, log, answers, List.flatMap_append, List.append_assoc]

/-- In the pipelined core the store on the data port is the one in MEM, so that looking once is
enough. The single-cycle core has the word it fetches there, which WRITE_MEM may change. -/
private theorem storeless_pipelined (pos : 0 < clkPerBit) (fits : clkPerBit < 2 ^ 16)
    (idle : Idle s.dbg) {core : Cpu.Pipeline.Core} (pipelined : s.core = .pipelined core)
    (free : core.dataPort.we = false) (es : List Exchange)
    (calm : HandsOff input (finish 0 es))
    (session : Session clkPerBit (line input) (sentBytes clkPerBit s input) 0 es) :
    Storeless clkPerBit s input (finish 0 es) := by
  intro k inside
  have halt : ∀ j, 0 ≤ j → j < k → (Soc.run clkPerBit s input j).dbg.fsm.halt = true := by
    intro j lo hi
    exact halted_session (n := 0) pos fits calm idle es session le_rfl j lo (by omega)
  have still := core_halted calm (Nat.zero_le k) inside.le halt
  change (Soc.run clkPerBit s input k).core = s.core at still
  simp only [Soc.dmemWe, Soc.dataPort, still, pipelined, CpuCore.dataPort, free]

section Calls

private theorem answers_append (before : List Request) (es fs : List Exchange) :
    answers clkPerBit s input before (es ++ fs) = answers clkPerBit s input before es ++
      answers clkPerBit s input (before ++ es.map Exchange.request) fs := by
  induction es generalizing before with
  | nil => simp [answers]
  | cons e es ih => simp [answers, ih, List.append_assoc]

private theorem answers_length (before : List Request) (es : List Exchange) :
    (answers clkPerBit s input before es).length =
      ((es.map Exchange.request).map Request.words).sum := by
  induction es generalizing before with
  | nil => rfl
  | cons e es ih =>
    have one : (answer clkPerBit s input before e).length = e.request.words := by
      unfold answer
      cases e.request <;> simp [Request.words]
    simp [answers, ih, one]

private theorem conversation_calls (before : List Request) (turns : List Turn) :
    (conversation clkPerBit s input before turns).map Prod.fst = turns.map Turn.call := by
  induction turns generalizing before with
  | nil => rfl
  | cons t ts ih => simp [conversation, ih]

private theorem conversation_words (before : List Request) (turns : List Turn) :
    (conversation clkPerBit s input before turns).flatMap (fun t => t.2.flatMap wordBytes) =
      (answers clkPerBit s input before (turns.flatMap Turn.exchanges)).flatMap wordBytes := by
  induction turns generalizing before with
  | nil => rfl
  | cons t ts ih =>
    simp [conversation, ih, answers_append, Turn.requests]

private theorem mem_conversation {before : List Request} {turns : List Turn} {t : Call × List Word}
    (inside : t ∈ conversation clkPerBit s input before turns) :
    ∃ before', ∃ u ∈ turns, t = (u.call, answers clkPerBit s input before' u.exchanges) := by
  induction turns generalizing before with
  | nil => exact absurd inside List.not_mem_nil
  | cons u us ih =>
    rcases List.mem_cons.mp inside with here | later
    · exact ⟨before, u, List.mem_cons_self, here⟩
    · obtain ⟨before', v, there, eq⟩ := ih later
      exact ⟨before', v, List.mem_cons_of_mem _ there, eq⟩

private theorem conversation_bytes (before : List Request) (turns : List Turn)
    (sends : ∀ t ∈ turns, t.requests = requests t.call) :
    (conversation clkPerBit s input before turns).flatMap (fun t =>
        (requests t.1).flatMap Request.bytes) =
      (turns.flatMap Turn.exchanges).flatMap fun e => e.request.bytes := by
  induction turns generalizing before with
  | nil => rfl
  | cons t ts ih =>
    have rest := ih (before ++ t.requests) fun u inside => sends u (List.mem_cons_of_mem _ inside)
    rw [conversation, List.flatMap_cons, List.flatMap_cons, List.flatMap_append, rest,
      ← sends t List.mem_cons_self, Turn.requests, List.flatMap_map]

end Calls

end Sessions

section Example

/-- The bytes of `write_mem(0x100, 42)` and `read_mem(0x4100)`, 20 clocks apart. -/
def exampleInput (n : ℕ) : SocIn :=
  let byte := (List.zip ((List.range 9).map (20 * ·) ++ (List.range 5).map (200 + 20 * ·))
    ((Request.writeMem 0x100 42).bytes ++ (Request.readMem 0x4100).bytes)).lookup n
  { rxDone := byte.isSome, rxData := byte.getD 0 }

def exampleBoard : Soc := Soc.powerUp .pipelinedZero []

def exampleTurns : List Turn :=
  [⟨.writeMem 0x100 42, [⟨.writeMem 0x100 42, 0, 160, 200⟩]⟩,
    ⟨.readMem 0x4100, [⟨.readMem 0x4100, 200, 280, 400⟩]⟩]

private theorem exampleSession :
    Session 2 (line exampleInput) (sentBytes 2 exampleBoard exampleInput) 0
    (exampleTurns.flatMap Turn.exchanges) := by decide +kernel

end Example

end RiscvSoc.Fpga.DebugSession
