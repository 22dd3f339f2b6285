/- GID: RiscvSoc/Fpga/ReadMmio
   generality: G
   utility: main
   digest: A run with READ_MMIO commands against the same run without them. -/

import RiscvSoc.Fpga.HaltedBoard

set_option autoImplicit false
set_option relaxedAutoImplicit false

namespace RiscvSoc.Fpga.ReadMmio

open RiscvSoc.Clocked.Trajectory
open RiscvSoc.Cpu.Decoder
open RiscvSoc.Memory.ByteLanes
open RiscvSoc.Memory.DpRam
open RiscvSoc.Peripherals.Timer
open RiscvSoc.Peripherals.Uart
open RiscvSoc.Peripherals.DebugUart
open RiscvSoc.Peripherals.DebugReply
open RiscvSoc.Peripherals.DebugReceive
open RiscvSoc.Peripherals.DebugRequest
open RiscvSoc.Fpga.RiscvTop
open RiscvSoc.Fpga.HaltedBoard

/-- The timer register a store to `a` writes. -/
def timerTarget (a : Word) : Option (BitVec 2) :=
  if inTimer a && regIndex a != 0b11 then some (regIndex a) else none

/-- A store is on the data port, and the READ_MMIO address selects another timer register than
its own, or disagrees with its own on whether the UART is selected for the TX register. -/
def divertsStore (s : Soc) (i : SocIn) : Bool :=
  s.dmemWe i &&
    (timerTarget s.dbg.fsm.mmioAddr != timerTarget (s.dmemAddr i) ||
      regIndex (s.dmemAddr i) == 0b00 && inUart s.dbg.fsm.mmioAddr != inUart (s.dmemAddr i))

section Fsm

def ServesMmio (r : DebugRegs) : Prop :=
  r.halt = true ∧
    match r.state with
    | .cmdIdle | .recvMmioAddr | .mmioReadWait | .mmioReadLatch | .sendLoad | .sendByteStart
    | .sendByteWaitBusy | .sendByteWaitDone => True
    | _ => False

variable {clkPerBit : ℕ} {r : DebugRegs} {txBusy : Bool} {i : DebugIn}

private theorem servesMmio_of_idle (idle : r.state = .cmdIdle) (halt : r.halt = true) :
    ServesMmio r :=
  ⟨halt, by rw [idle]; trivial⟩

private theorem dbgMemValid_of_servesMmio (serves : ServesMmio r) : r.dbgMemValid = false := by
  cases state : r.state <;> simp [ServesMmio, state] at serves <;>
    simp [DebugRegs.dbgMemValid, state]

private theorem servesMmio_advance (serves : ServesMmio r)
    (only : r.state = .cmdIdle → i.rxDone = true → i.rxData = Command.readMmio.code) :
    ServesMmio (r.advance clkPerBit txBusy i) := by
  have halt := serves.1
  cases state : r.state <;> simp only [ServesMmio, state, and_false] at serves <;>
    simp only [DebugRegs.advance, state]
  case cmdIdle =>
    split
    · rename_i done
      rw [only state done, Command.ofByte_code]
      simp [ServesMmio, DebugRegs.command, halt]
    · simp [ServesMmio, halt]
  case recvMmioAddr =>
    split
    · simp only [DebugRegs.argument]
      split <;> simp [ServesMmio, halt]
    · split <;> simp [ServesMmio, halt]
  all_goals
    repeat' split
    all_goals simp [ServesMmio, halt]

private theorem idle_advance (clkPerBit : ℕ) (txBusy : Bool) (idle : r.state = .cmdIdle)
    (quiet : i.rxDone = false) :
    (r.advance clkPerBit txBusy i).state = .cmdIdle ∧
      (r.advance clkPerBit txBusy i).halt = r.halt := by
  simp [DebugRegs.advance, idle, quiet]

end Fsm

section Edge

private theorem written_timerTarget (t : TimerRegs) (a wdata : Word) (rst we re : Bool) :
    t.written { rst, sel := inTimer a, addr := a.extractLsb' 0 4, wdata, we, re } =
      if we then (timerTarget a).elim t fun reg => t.write reg wdata else t := by
  have bits : (a.extractLsb' 0 4).extractLsb' 2 2 = regIndex a := by
    ext k hk
    simp [regIndex, BitVec.getElem_extractLsb']
  cases sel : inTimer a with
  | false => simp [TimerRegs.written, timerTarget, sel]
  | true =>
    by_cases hole : regIndex a = 0b11
    · simp [TimerRegs.written, timerTarget, sel, bits, hole, TimerRegs.write]
    · simp only [TimerRegs.written, timerTarget, sel, bits, Bool.true_and, bne_iff_ne, ne_eq,
        hole, not_false_eq_true, if_true, Option.elim_some]

variable {clkPerBit : ℕ} {s : Soc} {d : DbgUart} {i : SocIn}

/-- The input without what the receiver shows. -/
def withheld (i : SocIn) : SocIn := { i with rxDone := false }

/-- The board `s` with another debug UART. -/
abbrev withDbg (s : Soc) (d : DbgUart) : Soc := { s with dbg := d }

private theorem steered_alike
    (calm : d.fsm.dbgMmioValid = true → divertsStore (withDbg s d) i = false)
    (we : s.dmemWe i = true) :
    timerTarget ((withDbg s d).periphAddr i) = timerTarget (s.dmemAddr i) ∧
      (regIndex (s.dmemAddr i) = 0b00 →
        inUart ((withDbg s d).periphAddr i) = inUart (s.dmemAddr i)) := by
  cases valid : d.fsm.dbgMmioValid with
  | false =>
    have own : (withDbg s d).periphAddr i = s.dmemAddr i := by simp [Soc.periphAddr, valid]; rfl
    exact ⟨by rw [own], fun _ => by rw [own]⟩
  | true =>
    have steer : (withDbg s d).periphAddr i = d.fsm.mmioAddr := by simp [Soc.periphAddr, valid]
    have calm : (s.dmemWe i &&
        (timerTarget d.fsm.mmioAddr != timerTarget (s.dmemAddr i) ||
          regIndex (s.dmemAddr i) == 0b00 &&
            inUart d.fsm.mmioAddr != inUart (s.dmemAddr i))) = false := calm valid
    rw [we, Bool.true_and, Bool.or_eq_false_iff, Bool.and_eq_false_iff] at calm
    obtain ⟨timer, uart⟩ := calm
    rw [steer]
    exact ⟨by simpa using timer, fun tx => by simpa [tx] using uart⟩

private theorem posedge_alike (rst : i.rst = false) (key1 : i.key1 = true)
    (halt : s.dbg.fsm.halt = true) (dHalt : d.fsm.halt = true)
    (idle : s.dbg.fsm.dbgMmioValid = false) (memIdle : s.dbg.fsm.dbgMemValid = false)
    (dMemIdle : d.fsm.dbgMemValid = false)
    (calm : d.fsm.dbgMmioValid = true → divertsStore (withDbg s d) i = false) :
    (withDbg s d).posedge clkPerBit i =
      withDbg (s.posedge clkPerBit (withheld i)) ((withDbg s d).posedge clkPerBit i).dbg := by
  have own : s.periphAddr (withheld i) = s.dmemAddr i := by simp [Soc.periphAddr, idle]; rfl
  have txEn : (withDbg s d).uartTxEn i = s.uartTxEn (withheld i) := by
    cases we : s.dmemWe i with
    | false =>
      change (_ && s.dmemWe i && _) = (_ && s.dmemWe i && _)
      simp [we]
    | true =>
      by_cases tx : regIndex (s.dmemAddr i) = 0b00
      · have uart := (steered_alike calm we).2 tx
        change (inUart ((withDbg s d).periphAddr i) && _ && _) =
          (inUart (s.periphAddr (withheld i)) && _ && _)
        rw [uart, own]
        rfl
      · have off : (regIndex (s.dmemAddr i) == 0b00) = false := by simpa using tx
        change (_ && _ && regIndex (s.dmemAddr i) == 0b00) =
          (_ && _ && regIndex (s.dmemAddr i) == 0b00)
        rw [off, Bool.and_false, Bool.and_false]
  have txData : (withDbg s d).uartTxData i = s.uartTxData (withheld i) := by
    simp only [Soc.uartTxData, txEn]
    rfl
  ext1
  · refine (CpuCore.posedge_halted _ rst ?_).trans (CpuCore.posedge_halted _ rst ?_).symm
    · simp [Soc.coreIn, Soc.halt, dHalt, key1]
    · simp [Soc.coreIn, Soc.halt, withheld, halt, key1]
  · rfl
  · rfl
  · have port : (withDbg s d).bramIn i = s.bramIn (withheld i) := by
      simp only [Soc.bramIn, memIdle, dMemIdle]
      rfl
    exact congrArg s.bram.posedge port
  · change UartPair.mk _ _ = UartPair.mk _ _
    rw [txData, txEn]
    rfl
  · rfl
  · refine s.timer.posedge_congr rfl ?_
    refine (written_timerTarget ..).trans (Eq.trans ?_ (written_timerTarget ..).symm)
    rw [own]
    cases we : s.dmemWe i with
    | false =>
      change (if s.dmemWe i = true then _ else _) = if s.dmemWe i = true then _ else _
      simp [we]
    | true =>
      rw [(steered_alike calm we).1]
      rfl
  · rfl

end Edge

section Runs

/-- Two halted boards that differ in their debug UART only: one serves READ_MMIO, the other is
idle. -/
structure Beside (a b : Soc) : Prop where
  alike : a = withDbg b a.dbg
  serves : ServesMmio a.dbg.fsm
  idle : b.dbg.fsm.state = .cmdIdle
  halt : b.dbg.fsm.halt = true

private theorem beside_posedge {clkPerBit : ℕ} {a b : Soc} {i : SocIn} (inv : Beside a b)
    (rst : i.rst = false) (key1 : i.key1 = true)
    (only : a.dbg.fsm.state = .cmdIdle → i.rxDone = true → i.rxData = Command.readMmio.code)
    (calm : a.dbg.fsm.dbgMmioValid = true → divertsStore a i = false) :
    Beside (a.posedge clkPerBit i) (b.posedge clkPerBit (withheld i)) := by
  obtain ⟨alike, serves, idle, halt⟩ := inv
  have still := idle_advance clkPerBit b.dbg.tx.busy (i := b.debugIn (withheld i)) idle rfl
  have noRst : (b.debugIn (withheld i)).rst = false := rst
  refine ⟨?_, ?_, ?_, ?_⟩
  · rw [alike] at calm ⊢
    exact posedge_alike rst key1 halt serves.1 (by simp [DebugRegs.dbgMmioValid, idle])
      (by simp [DebugRegs.dbgMemValid, idle]) (dbgMemValid_of_servesMmio serves) calm
  · have noRst : (a.debugIn i).rst = false := rst
    simp only [Soc.posedge, DbgUart.posedge, noRst]
    exact servesMmio_advance serves only
  · simp only [Soc.posedge, DbgUart.posedge, noRst]
    exact still.1
  · simp only [Soc.posedge, DbgUart.posedge, noRst]
    exact still.2.trans halt

/-- READ_MMIO only reads: from every halted state with an idle debug UART, a run in which the
debug UART is sent READ_MMIO commands, and in which none of them diverts a store, differs from
the run without these commands in nothing but the debug UART. -/
theorem readMmio_changes_nothing (clkPerBit : ℕ) (s : Soc) (input : ℕ → SocIn) (clocks : ℕ)
    (idle : s.dbg.fsm.state = .cmdIdle) (halt : s.dbg.fsm.halt = true)
    (noRst : ∀ n < clocks, (input n).rst = false) (key1 : ∀ n < clocks, (input n).key1 = true)
    (only : ∀ n < clocks, (Soc.run clkPerBit s input n).dbg.fsm.state = .cmdIdle →
      (input n).rxDone = true → (input n).rxData = Command.readMmio.code)
    (calm : ∀ n < clocks, (Soc.run clkPerBit s input n).dbg.fsm.dbgMmioValid = true →
      divertsStore (Soc.run clkPerBit s input n) (input n) = false)
    (n : ℕ) (inside : n ≤ clocks) :
    Soc.run clkPerBit s input n =
      withDbg (Soc.run clkPerBit s (fun k => withheld (input k)) n)
        (Soc.run clkPerBit s input n).dbg := by
  suffices inv : Beside (Soc.run clkPerBit s input n)
      (Soc.run clkPerBit s (fun k => withheld (input k)) n) from inv.alike
  induction n with
  | zero => exact ⟨rfl, servesMmio_of_idle (r := s.dbg.fsm) idle halt, idle, halt⟩
  | succ n ih =>
    have hn : n < clocks := by omega
    exact beside_posedge (ih (by omega)) (noRst n hn) (key1 n hn) (only n hn) (calm n hn)

end Runs

section Parked

/-- The pipelined core runs `addi x1, x0, 5` and a store while KEY[1] is held down, and is halted
with the store in MEM. -/
def parked (clkPerBit : ℕ) (store : Word) : Soc :=
  Soc.run clkPerBit (Soc.powerUp .pipelinedZero [0x00500093, store])
    (fun n => { rst := n == 0, key1 := n == 0 }) 9

/-- READ_MMIO of an address, a byte every `gap` clocks. -/
def readMmioEvery (gap : ℕ) (addr : Word) (n : ℕ) : SocIn where
  rxDone := n % gap == 0 && decide (n < 5 * gap)
  rxData := (Request.readMmio addr).bytes.getD (n / gap) 0

/-- While `sw x1, 0x104(x0)` is in MEM the UART's STATUS is read without consequences. -/
theorem readMmio_changes_nothing_status :
    let input := readMmioEvery 20 0x10000008
    Soc.run 2 (parked 2 0x10102223) input 100 =
      withDbg (Soc.run 2 (parked 2 0x10102223) (fun k => withheld (input k)) 100)
        (Soc.run 2 (parked 2 0x10102223) input 100).dbg :=
  readMmio_changes_nothing 2 (parked 2 0x10102223) (readMmioEvery 20 0x10000008) 100
    (by decide +kernel) (by decide +kernel) (fun _ _ => rfl) (fun _ _ => rfl) (by decide +kernel)
    (by decide +kernel) 100 le_rfl

/-- `sw x1, 0x100(x0)` in MEM. -/
def parkedBoard : Soc := parked clkPerBit 0x10102023

private theorem parked_dataPort (rst : Bool) (imemRdata : Word) :
    parkedBoard.core.dataPort rst imemRdata = parkedBoard.core.dataPort false 0 := by
  obtain ⟨core, pipelined⟩ : ∃ core, parkedBoard.core = .pipelined core := ⟨_, rfl⟩
  rw [pipelined]
  rfl

private theorem parked_idle : Idle parkedBoard.dbg :=
  ⟨by decide +kernel, by decide +kernel, by decide +kernel, by decide +kernel, by decide +kernel⟩

private theorem parked_reload : parkedBoard.timer.reloadVal = 0 := by decide +kernel

private theorem parked_store {t : Soc} (core : t.core = parkedBoard.core) (i : SocIn) :
    t.dmemWe i = true ∧ t.dmemAddr i = 0x100 ∧ t.dmemWdata i = 5 := by
  have port : t.dataPort i = parkedBoard.core.dataPort false 0 := by
    rw [Soc.dataPort, core, parked_dataPort]
  rw [Soc.dmemWe, Soc.dmemAddr, Soc.dmemWdata, port]
  exact ⟨by decide +kernel, by decide +kernel, by decide +kernel⟩

variable {input : ℕ → SocIn}

private theorem parked_written (calm : ∀ clocks, HandsOff input clocks) {first last : ℕ}
    (arrive : Arrive clkPerBit (line input) 0 Command.readMmio.code (wordBytes 0x30000000) first
      last) :
    (Soc.run clkPerBit parkedBoard input (last + 2)).timer.reloadVal = 5 := by
  obtain ⟨received, -, halted, -, -⟩ := request_taken (u := parkedBoard.dbg)
    (i := debugInput clkPerBit parkedBoard input) (n := 0) (by decide) (by decide)
    (fun _ => rfl) parked_idle (.readMmio 0x30000000) arrive
  have halt : ∀ k, 0 ≤ k → k < last + 1 →
      (Soc.run clkPerBit parkedBoard input k).dbg.fsm.halt = true := by
    intro k lo hi
    rw [(dbg_run clkPerBit parkedBoard (calm (last + 1)) hi.le).1]
    exact (halted k lo (by omega)).1
  have core := core_halted (calm (last + 1)) (Nat.zero_le (last + 1)) le_rfl halt
  rw [← (dbg_run clkPerBit parkedBoard (calm (last + 1)) le_rfl).1] at received
  obtain ⟨we, -, wdata⟩ := parked_store core (input (last + 1))
  have valid : (Soc.run clkPerBit parkedBoard input (last + 1)).dbg.fsm.dbgMmioValid = true :=
    (congrArg DebugRegs.dbgMmioValid received.fsm :)
  have address : (Soc.run clkPerBit parkedBoard input (last + 1)).dbg.fsm.mmioAddr =
      0x30000000 := (congrArg DebugRegs.mmioAddr received.fsm :)
  refine (TimerRegs.reloadVal_posedge _ (calm (last + 2) (last + 1) (by omega)).1).trans ?_
  simp [TimerRegs.written, TimerRegs.write, Soc.timerIn, Soc.timerSel, Soc.periphAddr, valid,
    address, we, wdata, inTimer]

private theorem parked_untouched (calm : ∀ clocks, HandsOff input clocks)
    (silent : ∀ n, line input n = none) (n : ℕ) :
    (Soc.run clkPerBit parkedBoard input n).timer.reloadVal = 0 := by
  have idle : ∀ k, Idle (Soc.run clkPerBit parkedBoard input k).dbg := by
    intro k
    rw [(dbg_run clkPerBit parkedBoard (calm k) le_rfl).1, ← Nat.zero_add k]
    have start := parked_idle
    have here : Settled parkedBoard.dbg.fsm
        (run clkPerBit parkedBoard.dbg (debugInput clkPerBit parkedBoard input) 0) :=
      ⟨rfl, start.txEn, start.ready⟩
    have still := idle_silent (fun _ => rfl) here start.state k fun x _ _ => silent x
    exact idle_of_settled still.1 start.state start.halt
  induction n with
  | zero => exact parked_reload
  | succ n ih =>
    have core := core_halted (calm n) (Nat.zero_le n) le_rfl fun k _ _ => (idle k).halt
    obtain ⟨-, address, -⟩ := parked_store core (input n)
    have unselected : (Soc.run clkPerBit parkedBoard input n).timerSel (input n) = false := by
      simp [Soc.timerSel, Soc.periphAddr, DebugRegs.dbgMmioValid, (idle n).state, address, inTimer]
    refine (TimerRegs.reloadVal_posedge _ (calm (n + 1) n (by omega)).1).trans ?_
    simp [TimerRegs.written, Soc.timerIn, unselected, ih]

/-- READ_MMIO of the timer's RELOAD, a byte every eleven bit periods. -/
def readReload : ℕ → SocIn := readMmioEvery 2387 0x30000000

private theorem arrive_readReload :
    Arrive clkPerBit (line readReload) 0 Command.readMmio.code (wordBytes 0x30000000) 0 9548 := by
  have between : ∀ m, Silent (line readReload) (m * 2387 + 1) ((m + 1) * 2387) := by
    intro m k lo hi
    have off : k % 2387 ≠ 0 := by omega
    simp [line, readReload, readMmioEvery, off]
  refine ⟨le_rfl, fun k lo hi => absurd hi (by omega), rfl, ?_⟩
  exact ⟨2387, by decide, by decide, between 0, rfl, 4774, by decide, by decide, between 1, rfl,
    7161, by decide, by decide, between 2, rfl, 9548, by decide, by decide, between 3, rfl, rfl⟩

/-- READ_MMIO of RELOAD overwrites it with the word that is being stored to `0x100`. -/
theorem readMmio_writes_reload :
    (Soc.run clkPerBit parkedBoard readReload 9550).timer.reloadVal = 5 ∧
      (Soc.run clkPerBit parkedBoard (fun n => withheld (readReload n)) 9550).timer.reloadVal =
        0 :=
  ⟨parked_written (fun _ _ _ => ⟨rfl, rfl⟩) arrive_readReload,
    parked_untouched (fun _ _ _ => ⟨rfl, rfl⟩) (fun _ => rfl) 9550⟩

end Parked

end RiscvSoc.Fpga.ReadMmio
