/- GID: RiscvSoc/Peripherals/DebugRequest
   generality: G
   utility: support
   digest: The commands a halted core is inspected with: their bytes and their mark on the FSM. -/

import RiscvSoc.Peripherals.DebugReceive

set_option autoImplicit false
set_option relaxedAutoImplicit false

namespace RiscvSoc.Peripherals.DebugRequest

open RiscvSoc.Clocked.Trajectory
open RiscvSoc.Cpu.Decoder
open RiscvSoc.Memory.ByteLanes
open RiscvSoc.Peripherals.Uart
open RiscvSoc.Peripherals.TxFrame
open RiscvSoc.Peripherals.DebugUart
open RiscvSoc.Peripherals.DebugReply
open RiscvSoc.Peripherals.DebugReceive

/-- A command with its arguments; RESUME and STEP aside, which let the core go. -/
inductive Request where
  | halt
  | readReg (idx : Reg)
  | readPc
  | readAll
  | writeMem (addr data : Word)
  | readMem (addr : Word)
  | readCsr (addr : BitVec 16)
  | readMmio (addr : Word)
  deriving DecidableEq

namespace Request

def command : Request → Command
  | halt => .halt
  | readReg _ => .readReg
  | readPc => .readPc
  | readAll => .readAll
  | writeMem _ _ => .writeMem
  | readMem _ => .readMem
  | readCsr _ => .readCsr
  | readMmio _ => .readMmio

def args : Request → List Byte
  | halt | readPc | readAll => []
  | readReg idx => [idx.setWidth 8]
  | writeMem addr data => wordBytes addr ++ wordBytes data
  | readMem addr | readMmio addr => wordBytes addr
  | readCsr addr => halfBytes addr

def bytes (q : Request) : List Byte := q.command.code :: q.args

/-- The words of its reply. -/
def words : Request → ℕ
  | halt | writeMem _ _ => 0
  | readReg _ | readPc | readMem _ | readCsr _ | readMmio _ => 1
  | readAll => 33

def received (r : DebugRegs) : Request → DebugRegs
  | halt => { r with halt := true }
  | readReg idx =>
    { r with wordSel := 0#1 ++ idx, wordCount := 1, readingCsr := false, state := .sendLoad }
  | readPc => { r with wordSel := 32, wordCount := 1, readingCsr := false, state := .sendLoad }
  | readAll => { r with wordSel := 0, wordCount := 33, readingCsr := false, state := .sendLoad }
  | writeMem addr data =>
    { r with
      memIsWrite := true, rxByteIdx := 0, memAddr := addr, memWdata := data
      state := .memWritePulse }
  | readMem addr =>
    { r with memIsWrite := false, rxByteIdx := 0, memAddr := addr, state := .memReadWait }
  | readCsr addr =>
    { r with
      csrByteIdx := true, csrAddrPending := addr, wordCount := 1, readingCsr := true
      state := .sendLoad }
  | readMmio addr => { r with rxByteIdx := 0, mmioAddr := addr, state := .mmioReadWait }

end Request

section Arguments

private theorem setByte16_halfBytes (old h : BitVec 16) :
    setByte16 (setByte16 old false (h.extractLsb' 0 8)) true (h.extractLsb' 8 8) = h := by
  ext k hk
  simp [setByte16]
  grind

private theorem extractLsb'_setWidth_reg (idx : Reg) : (idx.setWidth 8).extractLsb' 0 5 = idx := by
  ext k hk
  have narrow : k < 8 := by omega
  simp [narrow, BitVec.getLsbD_eq_getElem hk]

variable {r : DebugRegs}

private theorem awaitsAll_args (halt : r.halt = true) (q : Request) :
    AwaitsAll (r.command q.command) q.args := by
  cases q <;> simp [Request.command, Request.args, DebugRegs.command, DebugRegs.argument,
    DebugRegs.awaits, AwaitsAll, wordBytes, halfBytes, halt, List.range_succ]

private theorem settled_received (halt : r.halt = true) (q : Request) :
    settled (q.args.foldl DebugRegs.argument (r.command q.command)) = settled (q.received r) := by
  cases q <;> simp [Request.command, Request.args, DebugRegs.command, DebugRegs.argument,
    Request.received, settled, wordBytes, halfBytes, halt, List.range_succ, setLane_lanes,
    setByte16_halfBytes, extractLsb'_setWidth_reg]

private theorem halt_command (halt : r.halt = true) (q : Request) :
    (r.command q.command).halt = true := by
  cases q <;> simp [Request.command, DebugRegs.command, halt]

variable {clkPerBit : ℕ} {u : DbgUart} {i : ℕ → DebugIn} {n first last : ℕ}

/-- A command arrives at the idle debug UART of a halted core. -/
theorem request_taken (pos : 0 < clkPerBit) (fits : clkPerBit < 2 ^ 16)
    (noRst : ∀ n, (i n).rst = false) (idle : Idle (run clkPerBit u i n)) (q : Request)
    (arrive : Arrive clkPerBit (fun x => heard (i x)) n q.command.code q.args first last) :
    Settled (q.received (run clkPerBit u i n).fsm) (run clkPerBit u i (last + 1)) ∧
      sent clkPerBit u i (last + 1) = sent clkPerBit u i n ∧
      (∀ k, n ≤ k → k ≤ last → (run clkPerBit u i k).fsm.halt = true ∧
        (run clkPerBit u i k).fsm.dbgMemWe = false) ∧
      (run clkPerBit u i first).fsm.state = .cmdIdle ∧
      ∀ k, first < k → k ≤ last → (run clkPerBit u i k).fsm.awaits = true := by
  obtain ⟨done, same, before, inside⟩ := settled_arrive pos fits noRst
    ⟨rfl, idle.txEn, idle.ready⟩ idle.state (awaitsAll_args idle.halt q) arrive
  refine ⟨⟨done.fsm.trans (settled_received idle.halt q), done.txEn, done.ready⟩, same, ?_,
    (before first arrive.start le_rfl).1, fun k lo hi => (inside k lo hi).1⟩
  intro k lo hi
  by_cases early : k ≤ first
  · obtain ⟨state, halt⟩ := before k lo early
    exact ⟨halt.trans idle.halt, by simp [DebugRegs.dbgMemWe, state]⟩
  · obtain ⟨awaits, halt⟩ := inside k (by omega) hi
    refine ⟨halt.trans (halt_command idle.halt q), ?_⟩
    cases state : (run clkPerBit u i k).fsm.state <;>
      simp [DebugRegs.awaits, state] at awaits <;> simp [DebugRegs.dbgMemWe, state]

end Arguments

section Replies

def Replying (r : DebugRegs) : Prop :=
  r.halt = true ∧
    match r.state with
    | .cmdIdle | .sendLoad | .sendByteStart | .sendByteWaitBusy | .sendByteWaitDone
    | .memReadWait | .memReadLatch | .mmioReadWait | .mmioReadLatch => True
    | _ => False

private theorem replying_advance {clkPerBit : ℕ} {r : DebugRegs} {txBusy : Bool} {i : DebugIn}
    (replying : Replying r) (quiet : i.rxDone = false) :
    Replying (r.advance clkPerBit txBusy i) := by
  obtain ⟨halt, inside⟩ := replying
  cases state : r.state <;> simp only [state] at inside <;>
    simp only [DebugRegs.advance, state, quiet]
  case sendByteWaitDone =>
    repeat' split
    all_goals simp [Replying, halt]
  all_goals
    repeat' split
    all_goals simp_all [Replying]

private theorem dbgMemWe_of_replying {r : DebugRegs} (replying : Replying r) :
    r.dbgMemWe = false := by
  obtain ⟨-, inside⟩ := replying
  cases state : r.state <;> simp [state] at inside <;> simp [DebugRegs.dbgMemWe, state]

def outgoing (r : DebugRegs) : Outgoing where
  curWord := r.curWord
  wordSel := r.wordSel
  wordCount := r.wordCount
  readingCsr := r.readingCsr
  byteSel := r.byteSel

variable {r q : DebugRegs} {clkPerBit : ℕ} {u : DbgUart} {i : ℕ → DebugIn} {n : ℕ}

private theorem sends_of_settled {v : DbgUart} (here : Settled q v) (halt : q.halt = true) :
    Sends (outgoing q) q.state v.fsm where
  state := (congrArg DebugRegs.state here.fsm :)
  halt := (congrArg DebugRegs.halt here.fsm :).trans halt
  curWord := (congrArg DebugRegs.curWord here.fsm :)
  wordSel := (congrArg DebugRegs.wordSel here.fsm :)
  wordCount := (congrArg DebugRegs.wordCount here.fsm :)
  readingCsr := (congrArg DebugRegs.readingCsr here.fsm :)
  byteSel := (congrArg DebugRegs.byteSel here.fsm :)

private theorem settled_advance {txBusy : Bool} {j : DebugIn}
    (access : (q.dbgMemValid || q.dbgMmioValid) = true) (same : settled r = settled q) :
    settled (r.advance clkPerBit txBusy j) = settled (q.advance clkPerBit false j) ∧
      (r.advance clkPerBit txBusy j).txEn = false := by
  have eq : r = { q with rxTimeoutCnt := r.rxTimeoutCnt, txEn := r.txEn } := by
    obtain ⟨state, _⟩ := r
    obtain ⟨state', _⟩ := q
    simp only [settled, DebugRegs.mk.injEq] at same ⊢
    simp [same]
  rw [eq]
  obtain ⟨state, _⟩ := q
  cases state <;> simp [DebugRegs.dbgMemValid, DebugRegs.dbgMmioValid] at access <;>
    exact ⟨rfl, rfl⟩

theorem settled_access (noRst : ∀ n, (i n).rst = false) (here : Settled q (run clkPerBit u i n))
    (access : (q.dbgMemValid || q.dbgMmioValid) = true) :
    Settled (q.advance clkPerBit false (i n)) (run clkPerBit u i (n + 1)) ∧
      sent clkPerBit u i (n + 1) = sent clkPerBit u i n := by
  obtain ⟨next, strobe⟩ := settled_advance access here.fsm
  exact settled_succ noRst here strobe next

/-- The peripheral address stays out while its data is latched. -/
theorem advance_mmioReadWait (clkPerBit : ℕ) (txBusy : Bool) (j : DebugIn)
    (state : q.state = .mmioReadWait) :
    (q.advance clkPerBit txBusy j).state = .mmioReadLatch ∧
      (q.advance clkPerBit txBusy j).mmioAddr = q.mmioAddr := by
  simp only [DebugRegs.advance, state, and_self]

private theorem advance_read (clkPerBit : ℕ) (txBusy : Bool) (j k : DebugIn) (mmio : Bool)
    (state : q.state = if mmio then .mmioReadWait else .memReadWait) :
    let waits := q.advance clkPerBit txBusy j
    let offer := waits.advance clkPerBit txBusy k
    (waits.dbgMemValid || waits.dbgMmioValid) = true ∧ offer.state = .sendByteStart ∧
      offer.halt = q.halt ∧ offer.byteSel = 0 ∧ offer.wordCount = 1 ∧
      offer.curWord = if mmio then k.dbgMmioRdata else k.dbgMemRdata := by
  obtain ⟨_, _⟩ := q
  obtain rfl := state
  cases mmio <;> exact ⟨rfl, rfl, rfl, rfl, rfl, rfl⟩

private theorem offers_read (noRst : ∀ n, (i n).rst = false)
    (here : Settled q (run clkPerBit u i n))
    (halt : q.halt = true) (mmio : Bool)
    (state : q.state = if mmio then .mmioReadWait else .memReadWait) :
    ∃ o, Offers o (run clkPerBit u i (n + 2)) ∧ o.byteSel = 0 ∧ o.wordCount = 1#6 ∧
      o.curWord = (if mmio then (i (n + 1)).dbgMmioRdata else (i (n + 1)).dbgMemRdata) ∧
      sent clkPerBit u i (n + 2) = sent clkPerBit u i n := by
  obtain ⟨access, start, stays, byteSel, wordCount, curWord⟩ :=
    advance_read clkPerBit false (i n) (i (n + 1)) mmio state
  have first : (q.dbgMemValid || q.dbgMmioValid) = true := by
    cases mmio <;> simp [DebugRegs.dbgMemValid, DebugRegs.dbgMmioValid, state]
  obtain ⟨wait, log⟩ := settled_access noRst here first
  obtain ⟨latch, logNext⟩ := settled_access noRst wait access
  have sends := sends_of_settled latch (stays.trans halt)
  rw [start] at sends
  exact ⟨_, ⟨sends, latch.txEn, latch.ready⟩, byteSel, wordCount, curWord, logNext.trans log⟩

/-- Clocks from the end of a command to the state after its reply. -/
def Request.replyClocks (clkPerBit : ℕ) : Request → ℕ
  | .halt => 0
  | .writeMem _ _ => 1
  | .readReg _ | .readPc | .readCsr _ => loadClocks clkPerBit
  | .readAll => 33 * loadClocks clkPerBit
  | .readMem _ | .readMmio _ => 2 + wordClocks clkPerBit

/-- The words the FSM latches for the reply to a command that ended before clock `n`. -/
def Request.latchedWords (clkPerBit : ℕ) (u : DbgUart) (i : ℕ → DebugIn) (n : ℕ) :
    Request → List Word
  | .halt | .writeMem _ _ => []
  | .readReg _ | .readPc | .readCsr _ => [latched clkPerBit u i n]
  | .readAll => (List.range 33).map fun j => latched clkPerBit u i (n + j * loadClocks clkPerBit)
  | .readMem _ => [(i (n + 1)).dbgMemRdata]
  | .readMmio _ => [(i (n + 1)).dbgMmioRdata]

theorem idle_of_settled {v : DbgUart} (here : Settled q v) (idle : q.state = .cmdIdle)
    (halt : q.halt = true) : Idle v :=
  ⟨(state_of_settled here).trans idle, (halt_of_settled here).trans halt, here.txEn, here.ready⟩

private theorem reply_loaded (pos : 0 < clkPerBit) (fits : clkPerBit < 2 ^ 16)
    (noRst : ∀ n, (i n).rst = false) (here : Settled q (run clkPerBit u i n))
    (halt : q.halt = true) (state : q.state = .sendLoad) (count : ℕ)
    (wordCount : q.wordCount = BitVec.ofNat 6 (count + 1)) (bound : count + 1 < 64) :
    Idle (run clkPerBit u i (n + (count + 1) * loadClocks clkPerBit)) ∧
      sent clkPerBit u i (n + (count + 1) * loadClocks clkPerBit) = sent clkPerBit u i n ++
        ((List.range (count + 1)).map fun j =>
          latched clkPerBit u i (n + j * loadClocks clkPerBit)).flatMap wordBytes ∧
      (sent clkPerBit u i (n + (count + 1) * loadClocks clkPerBit - 2)).length <
        (sent clkPerBit u i n).length + 4 * (count + 1) := by
  have sends := sends_of_settled here halt
  rw [state] at sends
  have words := send_words pos fits noRst count ⟨sends, here.txEn, here.ready⟩ wordCount bound
  rwa [← List.flatMap_map (g := wordBytes)] at words

private theorem reply_read (pos : 0 < clkPerBit) (fits : clkPerBit < 2 ^ 16)
    (noRst : ∀ n, (i n).rst = false) (here : Settled q (run clkPerBit u i n))
    (halt : q.halt = true) (mmio : Bool)
    (state : q.state = if mmio then .mmioReadWait else .memReadWait) :
    Idle (run clkPerBit u i (n + (2 + wordClocks clkPerBit))) ∧
      sent clkPerBit u i (n + (2 + wordClocks clkPerBit)) = sent clkPerBit u i n ++
        wordBytes (if mmio then (i (n + 1)).dbgMmioRdata else (i (n + 1)).dbgMemRdata) ∧
      (sent clkPerBit u i (n + (2 + wordClocks clkPerBit) - 2)).length <
        (sent clkPerBit u i n).length + 4 := by
  obtain ⟨o, offers, first, single, word, log⟩ := offers_read noRst here halt mmio state
  obtain ⟨idle, -, out, early⟩ := send_word pos fits noRst offers first
  rw [← Nat.add_assoc]
  exact ⟨idle single, by rw [out, log, word], by rw [early, log]; omega⟩

/-- The reply to a command: its words are sent, the FSM is idle again, and two clocks before
that the last byte was not yet out. -/
theorem reply_received (pos : 0 < clkPerBit) (fits : clkPerBit < 2 ^ 16)
    (noRst : ∀ n, (i n).rst = false) (idle : r.state = .cmdIdle) (halt : r.halt = true)
    (c : Request) (here : Settled (c.received r) (run clkPerBit u i n)) :
    Idle (run clkPerBit u i (n + c.replyClocks clkPerBit)) ∧
      sent clkPerBit u i (n + c.replyClocks clkPerBit) =
        sent clkPerBit u i n ++ (c.latchedWords clkPerBit u i n).flatMap wordBytes ∧
      (0 < c.words → (sent clkPerBit u i (n + c.replyClocks clkPerBit - 2)).length <
        (sent clkPerBit u i n).length + 4 * c.words) := by
  cases c with
  | halt =>
    exact ⟨idle_of_settled here idle rfl, (List.append_nil _).symm,
      fun none => absurd none (by decide)⟩
  | writeMem addr data =>
    obtain ⟨next, log⟩ := settled_access noRst here rfl
    exact ⟨idle_of_settled next rfl halt, log.trans (List.append_nil _).symm,
      fun none => absurd none (by simp [Request.words])⟩
  | readReg idx | readPc | readCsr addr =>
    have load := reply_loaded pos fits noRst here halt rfl 0 rfl (by decide)
    simpa [Request.replyClocks, Request.latchedWords, Request.words] using load
  | readAll =>
    obtain ⟨idle, log, early⟩ := reply_loaded pos fits noRst here halt rfl 32 rfl (by decide)
    exact ⟨idle, log, fun _ => early⟩
  | readMem addr =>
    obtain ⟨idle, log, early⟩ := reply_read pos fits noRst here halt false rfl
    exact ⟨idle, log.trans (by simp [Request.latchedWords]), fun _ => early⟩
  | readMmio addr =>
    obtain ⟨idle, log, early⟩ := reply_read pos fits noRst here halt true rfl
    exact ⟨idle, log.trans (by simp [Request.latchedWords]), fun _ => early⟩

theorem latchedWords_length (clkPerBit : ℕ) (u : DbgUart) (i : ℕ → DebugIn) (n : ℕ)
    (c : Request) : (c.latchedWords clkPerBit u i n).length = c.words := by
  cases c <;> simp [Request.latchedWords, Request.words]

/-- What selects word `k` of a reply when it is latched. -/
theorem selected_word (pos : 0 < clkPerBit) (fits : clkPerBit < 2 ^ 16)
    (noRst : ∀ n, (i n).rst = false) (here : Settled q (run clkPerBit u i n))
    (halt : q.halt = true) (state : q.state = .sendLoad) (count : ℕ)
    (wordCount : q.wordCount = BitVec.ofNat 6 (count + 1)) (bound : count + 1 < 64) (k : ℕ)
    (inside : k ≤ count) :
    (run clkPerBit u i (n + k * loadClocks clkPerBit)).fsm.readingCsr = q.readingCsr ∧
      (run clkPerBit u i (n + k * loadClocks clkPerBit)).fsm.wordSel =
        q.wordSel + BitVec.ofNat 6 k := by
  have sends := sends_of_settled here halt
  rw [state] at sends
  obtain ⟨o, loads, csr, sel, -, -⟩ := loads_again pos fits noRst count
    ⟨sends, here.txEn, here.ready⟩ wordCount bound k inside
  exact ⟨loads.sends.readingCsr.trans csr, loads.sends.wordSel.trans sel⟩

private theorem replying_received {v : DbgUart} (idle : r.state = .cmdIdle) (halt : r.halt = true)
    (c : Request) (reads : ∀ addr data, c ≠ .writeMem addr data) (here : Settled (c.received r) v) :
    Replying v.fsm := by
  have state := state_of_settled here
  have stays := halt_of_settled here
  cases c with
  | writeMem addr data => exact absurd rfl (reads addr data)
  | _ =>
    constructor
    · rw [stays]
      simp [Request.received, halt]
    · rw [state]
      simp [Request.received, idle]

private theorem replying_silent (noRst : ∀ n, (i n).rst = false)
    (here : Replying (run clkPerBit u i n).fsm) (k : ℕ)
    (silent : Silent (fun x => heard (i x)) n (n + k)) :
    Replying (run clkPerBit u i (n + k)).fsm := by
  induction k with
  | zero => exact here
  | succ k ih =>
    rw [← Nat.add_assoc, run_succ clkPerBit u noRst]
    exact replying_advance (ih fun x lo hi => silent x lo (by omega))
      (heard_none (silent (n + k) (by omega) (by omega)))

/-- The clocks of a reply and of the silence after it: the core stays halted, and only the first
clock of WRITE_MEM writes. -/
theorem reply_clocks (noRst : ∀ n, (i n).rst = false) (idle : r.state = .cmdIdle)
    (halt : r.halt = true) (c : Request) (here : Settled (c.received r) (run clkPerBit u i n))
    {stop : ℕ} (silent : Silent (fun x => heard (i x)) n stop) :
    (∀ k, n ≤ k → k ≤ stop → (run clkPerBit u i k).fsm.halt = true) ∧
      (∀ k, n < k → k ≤ stop → (run clkPerBit u i k).fsm.dbgMemWe = false) ∧
      ((∀ addr data, c ≠ .writeMem addr data) → (run clkPerBit u i n).fsm.dbgMemWe = false) := by
  have start : (run clkPerBit u i n).fsm.halt = true := by
    rw [halt_of_settled here]
    cases c <;> simp [Request.received, halt]
  have later : ∀ m, Replying (run clkPerBit u i m).fsm → n ≤ m → ∀ k, m ≤ k → k ≤ stop →
      Replying (run clkPerBit u i k).fsm := by
    intro m replying after k lo hi
    obtain ⟨j, rfl⟩ := Nat.exists_eq_add_of_le lo
    exact replying_silent noRst replying j fun x xlo xhi => silent x (by omega) (by omega)
  by_cases reads : ∀ addr data, c ≠ .writeMem addr data
  · have replying := replying_received idle halt c reads here
    have all := later n replying le_rfl
    refine ⟨?_, ?_, fun _ => dbgMemWe_of_replying replying⟩
    · intro k lo hi
      exact (all k lo hi).1
    · intro k lo hi
      exact dbgMemWe_of_replying (all k lo.le hi)
  · push Not at reads
    obtain ⟨addr, data, rfl⟩ := reads
    have next := (settled_access noRst here rfl).1
    have replying : Replying (run clkPerBit u i (n + 1)).fsm := by
      constructor
      · exact (halt_of_settled next).trans halt
      · rw [state_of_settled next]
        trivial
    have all := later (n + 1) replying (by omega)
    refine ⟨?_, ?_, fun reads => absurd rfl (reads addr data)⟩
    · intro k lo hi
      by_cases first : k = n
      · rw [first, start]
      · exact (all k (by omega) hi).1
    · intro k lo hi
      exact dbgMemWe_of_replying (all k lo hi)

/-- A host that has read the reply, and has let a frame pass, is not ahead of the FSM. -/
theorem reply_over (pos : 0 < clkPerBit) (fits : clkPerBit < 2 ^ 16)
    (noRst : ∀ n, (i n).rst = false) (idle : r.state = .cmdIdle) (halt : r.halt = true)
    (c : Request) (here : Settled (c.received r) (run clkPerBit u i n)) {stop : ℕ}
    (frame : n + clkPerBit * frameBitPeriods ≤ stop + 1)
    (read : (sent clkPerBit u i n).length + 4 * c.words ≤
      (sent clkPerBit u i (stop - 1)).length) :
    n + c.replyClocks clkPerBit ≤ stop := by
  obtain ⟨-, -, early⟩ := reply_received pos fits noRst idle halt c here
  by_contra ahead
  rcases Nat.eq_zero_or_pos c.words with none | some
  · have short : c.replyClocks clkPerBit ≤ 1 := by
      cases c <;> simp [Request.words] at none <;> simp [Request.replyClocks]
    have : 10 ≤ clkPerBit * frameBitPeriods := Nat.le_mul_of_pos_left _ pos
    omega
  · have before : sent clkPerBit u i (stop - 1) <+:
        sent clkPerBit u i (n + c.replyClocks clkPerBit - 2) := emitted_mono (by omega)
    exact absurd (read.trans before.length_le) (Nat.not_le.mpr (early some))

end Replies

end RiscvSoc.Peripherals.DebugRequest
