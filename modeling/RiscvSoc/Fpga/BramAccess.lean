/- GID: RiscvSoc/Fpga/BramAccess
   generality: G
   utility: main
   digest: Every BRAM access the core counts as complete is one on current data. -/

import RiscvSoc.Fpga.RiscvTop
import RiscvSoc.Peripherals.DebugReceive
import RiscvSoc.Peripherals.RxFrame

set_option autoImplicit false
set_option relaxedAutoImplicit false

namespace RiscvSoc.Fpga.BramAccess

open RiscvSoc.Clocked.Trajectory
open RiscvSoc.Cpu.Datapath (DataPort)
open RiscvSoc.Cpu.Decoder
open RiscvSoc.Memory.ByteLanes
open RiscvSoc.Memory.DpRam
open RiscvSoc.Peripherals
open RiscvSoc.Peripherals.Uart
open RiscvSoc.Peripherals.DebugUart
open RiscvSoc.Peripherals.DebugReceive (counted idle_quiet idle_byte)
open RiscvSoc.Fpga.RiscvTop

section Edge

variable {clkPerBit : ℕ} {s : Soc} {i j : SocIn}

/-- Port B belongs to the core in every clock in which the core runs. -/
theorem dbgMemValid_of_running (access : s.dbg.fsm.HaltedAccess) (key1 : j.key1 = true)
    (running : s.halt j = false) : s.dbg.fsm.dbgMemValid = false := by
  rw [← Bool.not_eq_true]
  intro valid
  have halt := access (DebugRegs.inAccess_of_dbgMemValid valid)
  simp [Soc.halt, halt, key1] at running

private theorem dbgMemValid_before_running (access : s.dbg.fsm.HaltedAccess) (key1 : j.key1 = true)
    (running : (s.posedge clkPerBit i).halt j = false) : s.dbg.fsm.dbgMemValid = false := by
  rw [← Bool.not_eq_true]
  intro valid
  have halt : (s.posedge clkPerBit i).dbg.fsm.halt = true :=
    DbgUart.halt_after_dbgMemValid access _ valid
  simp [Soc.halt, halt, key1] at running

/-- A fetch address that has not moved is the one port A registered. -/
theorem imemRdata_of_imemRvalid (valid : (s.posedge clkPerBit i).imemRvalid j = true) :
    (s.posedge clkPerBit i).imemRdata =
      (s.posedge clkPerBit i).bram.mem (wordIndex ((s.posedge clkPerBit i).imemAddr j)) := by
  have still : (s.posedge clkPerBit i).imemAddr j = s.imemAddr i := by
    simpa [Soc.imemRvalid, Soc.posedge] using valid
  rw [still]
  rfl

/-- A data address that has not moved is the one port B registered, unless the debug UART had
the port in between. -/
theorem ldData_of_dmemRvalid (mine : s.dbg.fsm.dbgMemValid = false)
    (valid : (s.posedge clkPerBit i).dmemRvalid j = true)
    (sel : (s.posedge clkPerBit i).bramSel j = true) :
    (s.posedge clkPerBit i).ldData j =
      (s.posedge clkPerBit i).bram.mem (wordIndex ((s.posedge clkPerBit i).dmemAddr j)) := by
  have still : (s.posedge clkPerBit i).dmemAddr j = s.dmemAddr i := by
    simp only [Soc.dmemRvalid, Bool.and_eq_true, beq_iff_eq] at valid
    exact valid.2
  have registered : (s.posedge clkPerBit i).bram.addressBR = wordIndex (s.dmemAddr i) := by
    simp [Soc.posedge, Bram.posedge, Soc.bramIn, mine]
  rw [Soc.ldData, if_pos sel, still, Soc.bramRdData, Bram.qB, registered]

/-- What the core's store does to BRAM while port B is the core's. -/
theorem mem_of_store (mine : s.dbg.fsm.dbgMemValid = false) (we : s.dmemWe i = true)
    (sel : s.bramSel i = true) :
    (s.posedge clkPerBit i).bram.mem =
      writeMasked s.bram.mem (wordIndex (s.dmemAddr i)) (s.dmemWdata i) (s.dmemByteena i) := by
  simp [Soc.posedge, Bram.posedge, Soc.bramIn, mine, we, sel]

end Edge

section Runs

private theorem haltedAccess_run (s : Top) (pins : ℕ → Pins) (reset : (pins 0).rst = true) (n : ℕ) :
    (Top.run s pins (n + 1)).soc.dbg.fsm.HaltedAccess := by
  induction n with
  | zero => exact DbgUart.haltedAccess_reset _ _ reset
  | succ n ih => exact DbgUart.haltedAccess_posedge ih _

/-- No BRAM access completes on stale data: with either core and from the second clock after
reset on, a valid fetch shows the addressed word, a completed load returns it, and a completed
store replaces the selected bytes of that word and nothing else. -/
theorem bram_accesses_are_current (s : Top) (pins : ℕ → Pins) (reset : (pins 0).rst = true)
    (key1 : ∀ n, (pins n).key1 = true) (n : ℕ) :
    let t := (Top.run s pins (n + 1)).soc
    let t' := (Top.run s pins (n + 2)).soc
    let i := Top.socInput s pins (n + 1)
    (t.imemRvalid i = true → t.imemRdata = t.bram.mem (wordIndex (t.imemAddr i))) ∧
      (t.halt i = false → t.dmemReq i = true → t.dmemRvalid i = true → t.bramSel i = true →
        (t.dmemRe i = true → t.ldData i = t.bram.mem (wordIndex (t.dmemAddr i))) ∧
        (t.dmemWe i = true →
          (∀ k < 4, lane (t'.bram.mem (wordIndex (t.dmemAddr i))) k =
            if (t.dmemByteena i).getLsbD k then lane (t.dmemWdata i) k
            else lane (t.bram.mem (wordIndex (t.dmemAddr i))) k) ∧
          ∀ a ≠ wordIndex (t.dmemAddr i), t'.bram.mem a = t.bram.mem a)) := by
  intro t t' i
  refine ⟨imemRdata_of_imemRvalid, ?_⟩
  intro running req valid sel
  constructor
  · intro re
    -- the clock before is the reset clock or one that keeps the debug UART's invariant
    have mine : (Top.run s pins n).soc.dbg.fsm.dbgMemValid = false := by
      cases n with
      | zero =>
        have halt : t.dbg.fsm.halt = true := by
          change (if (pins 0).rst then DebugRegs.reset _ else _).halt = true
          rw [if_pos reset]
          rfl
        have on : i.key1 = true := key1 1
        simp [Soc.halt, halt, on] at running
      | succ n =>
        exact dbgMemValid_before_running (haltedAccess_run s pins reset n) (key1 _) running
    exact ldData_of_dmemRvalid mine valid sel
  · intro we
    have mine := dbgMemValid_of_running (haltedAccess_run s pins reset n) (key1 (n + 1)) running
    have written : t'.bram.mem =
        writeMasked t.bram.mem (wordIndex (t.dmemAddr i)) (t.dmemWdata i) (t.dmemByteena i) :=
      mem_of_store mine we sel
    constructor
    · intro k hk
      rw [written, writeMasked_same, lane_mergeBytes _ _ _ hk]
    · intro a other
      rw [written, writeMasked_other _ _ _ other]

end Runs

section Example

/-- Two boards that only differ in UARTs and framebuffer, with nothing under way in the FSM of the
debug UART. -/
structure SameView (t u : Soc) : Prop where
  core : t.core = u.core
  imemAddrPrev : t.imemAddrPrev = u.imemAddrPrev
  dmemAddrPrev : t.dmemAddrPrev = u.dmemAddrPrev
  bram : t.bram = u.bram
  timer : t.timer = u.timer
  idle : t.dbg.fsm.state = .cmdIdle
  idle' : u.dbg.fsm.state = .cmdIdle
  halt : t.dbg.fsm.halt = u.dbg.fsm.halt

variable {clkPerBit : ℕ} {t u : Soc} {i j : SocIn}

private theorem SameView.trans {v : Soc} (first : SameView t u) (after : SameView u v) :
    SameView t v where
  core := first.core.trans after.core
  imemAddrPrev := first.imemAddrPrev.trans after.imemAddrPrev
  dmemAddrPrev := first.dmemAddrPrev.trans after.dmemAddrPrev
  bram := first.bram.trans after.bram
  timer := first.timer.trans after.timer
  idle := first.idle
  idle' := after.idle'
  halt := first.halt.trans after.halt

private theorem SameView.dataPort (same : SameView t u) (rst : i.rst = j.rst) :
    t.dataPort i = u.dataPort j := by
  rw [Soc.dataPort, Soc.dataPort, Soc.imemRdata, Soc.imemRdata, same.core, same.bram, rst]

private theorem SameView.coreIn (same : SameView t u) (rst : i.rst = j.rst) (key1 : i.key1 = j.key1)
    (sel : u.bramSel j = true) : t.coreIn i = u.coreIn j := by
  have port := same.dataPort rst
  have sel' : t.bramSel i = true := by
    rw [Soc.bramSel, Soc.dmemAddr, port]
    exact sel
  simp only [Soc.coreIn, Soc.halt, same.halt, key1, rst, Soc.imemRdata, Soc.imemRvalid,
    Soc.imemAddr, same.core, same.imemAddrPrev, same.bram, Soc.ldData, sel, sel', if_true,
    Soc.bramRdData, Soc.dmemRvalid, Soc.dmemReq, Soc.dmemAddr, port, same.dmemAddrPrev,
    Soc.timerIrq, same.timer]

/-- As long as the core stays within BRAM and the debug UART keeps in step, they do so after an
edge. -/
private theorem SameView.posedge (same : SameView t u) (rst : i.rst = j.rst)
    (key1 : i.key1 = j.key1)
    (sel : u.bramSel j = true)
    (idle : (t.posedge clkPerBit i).dbg.fsm.state = .cmdIdle)
    (idle' : (u.posedge clkPerBit j).dbg.fsm.state = .cmdIdle)
    (halt : (t.posedge clkPerBit i).dbg.fsm.halt = (u.posedge clkPerBit j).dbg.fsm.halt) :
    SameView (t.posedge clkPerBit i) (u.posedge clkPerBit j) := by
  have port := same.dataPort rst
  have off : t.dbg.fsm.dbgMemValid = false ∧ u.dbg.fsm.dbgMemValid = false ∧
      t.dbg.fsm.dbgMmioValid = false ∧ u.dbg.fsm.dbgMmioValid = false := by
    simp [DebugRegs.dbgMemValid, DebugRegs.dbgMmioValid, same.idle, same.idle']
  refine ⟨?core, ?imemAddrPrev, ?dmemAddrPrev, ?bram, ?timer, idle, idle', halt⟩
  case core => exact congr_arg₂ CpuCore.posedge same.core (same.coreIn rst key1 sel)
  case imemAddrPrev => simp only [Soc.posedge, Soc.imemAddr, same.core, rst]
  case dmemAddrPrev => simp only [Soc.posedge, Soc.dmemAddr, port]
  case bram =>
    simp only [Soc.posedge, Soc.bramIn, Soc.bramSel, Soc.imemAddr, Soc.dmemAddr, Soc.dmemWdata,
      Soc.dmemWe, Soc.dmemByteena, same.core, same.bram, port, rst, off, Bool.false_eq_true,
      if_false]
  case timer =>
    simp only [Soc.posedge, Soc.timerIn, Soc.timerSel, Soc.periphAddr, Soc.dmemAddr,
      Soc.dmemWdata, Soc.dmemWe, Soc.dmemRe, same.timer, port, rst, off, Bool.false_eq_true,
      if_false]

private theorem fsm_quiet (idle : t.dbg.fsm.state = .cmdIdle) (rst : i.rst = false)
    (quiet : i.rxDone = false) : (t.posedge clkPerBit i).dbg.fsm = counted t.dbg.fsm := by
  change (if i.rst then _ else t.dbg.fsm.advance clkPerBit t.dbg.tx.busy (t.debugIn i)) = _
  rw [rst, if_neg Bool.false_ne_true, idle_quiet clkPerBit t.dbg.tx.busy idle quiet]

private theorem fsm_byte {c : Command} (idle : t.dbg.fsm.state = .cmdIdle) (rst : i.rst = false)
    (done : i.rxDone = true) (code : i.rxData = c.code) :
    (t.posedge clkPerBit i).dbg.fsm = (counted t.dbg.fsm).command c := by
  change (if i.rst then _ else t.dbg.fsm.advance clkPerBit t.dbg.tx.busy (t.debugIn i)) = _
  rw [rst, if_neg Bool.false_ne_true]
  exact idle_byte clkPerBit t.dbg.tx.busy idle done code

private theorem SameView.posedge_quiet (same : SameView t u) (rst : i.rst = false ∧ j.rst = false)
    (key1 : i.key1 = j.key1) (quiet : i.rxDone = false ∧ j.rxDone = false)
    (sel : u.bramSel j = true) : SameView (t.posedge clkPerBit i) (u.posedge clkPerBit j) := by
  have left : (t.posedge clkPerBit i).dbg.fsm = counted t.dbg.fsm :=
    fsm_quiet same.idle rst.1 quiet.1
  have right : (u.posedge clkPerBit j).dbg.fsm = counted u.dbg.fsm :=
    fsm_quiet same.idle' rst.2 quiet.2
  refine same.posedge (rst.1.trans rst.2.symm) key1 sel ?_ ?_ ?_
  · rw [left]
    exact same.idle
  · rw [right]
    exact same.idle'
  · rw [left, right]
    exact same.halt

/-- `lw x1, 16(x0)`; `sw x1, 20(x0)`; `jal x0, .`; and the word to copy. -/
def copyProgram : List Word := [0x01002083, 0x00102A23, 0x0000006F, 0, 0xDEADBEEF]

def copyTop : Top := ⟨Soc.powerUp .pipelinedZero copyProgram, idleRx⟩

def copyPins (n : ℕ) : Pins where
  key0 := n != 0
  sw0 := true
  arduinoIo0 := decide (n < 10) ||
    (UartTx.frame uartParams Command.resume.code).getD ((n - 10) / RiscvTop.clkPerBit) true

def copyBoard : Soc :=
  let s := Soc.powerUp .pipelinedZero copyProgram
  { s with dbg := { s.dbg with fsm := { s.dbg.fsm with halt := false } } }

private theorem copy_rx (n : ℕ) :
    (Top.run copyTop copyPins (n + 1)).dbgRx =
      RxFrame.run uartParams RiscvTop.clkPerBit idleRx
        (fun k => (copyPins (k + 1)).arduinoIo0) n := by
  induction n with
  | zero => rfl
  | succ n ih =>
    change (Top.run copyTop copyPins (n + 1)).dbgRx.posedge uartParams RiscvTop.clkPerBit
      (copyPins (n + 1)).rst (copyPins (n + 1)).arduinoIo0 = _
    rw [ih]
    rfl

private theorem copy_line (n : ℕ) (rest : n < 10 ∨ 2180 ≤ n) : (copyPins n).arduinoIo0 = true := by
  rcases rest with before | after
  · simp [copyPins, before]
  · have stop : ∀ k, 10 ≤ k →
        (UartTx.frame uartParams Command.resume.code).getD k true = true := by
      intro k past
      rcases past.eq_or_lt with rfl | beyond
      · decide
      · have length : (UartTx.frame uartParams Command.resume.code).length ≤ k := beyond
        rw [List.getD_eq_getElem?_getD, List.getElem?_eq_none length]
        rfl
    have bit : 10 ≤ (n - 10) / RiscvTop.clkPerBit := by
      change 10 ≤ (n - 10) / 217
      omega
    rw [copyPins, stop _ bit, Bool.or_true]

private theorem copy_byte (n : ℕ) :
    ((Top.run copyTop copyPins (n + 1)).dbgRx.rxDone = true ↔ n = 2183) ∧
      (n = 2183 → (Top.run copyTop copyPins (n + 1)).dbgRx.rxOut = Command.resume.code) := by
  set line : ℕ → Bool := fun k => (copyPins (k + 1)).arduinoIo0 with line_def
  have early : ∀ k < 11,
      (RxFrame.run uartParams RiscvTop.clkPerBit idleRx line k).regIn = true := by
    intro k before
    exact RxFrame.regIn_resting RxFrame.resting_idleRx fun x _ => copy_line _ (by omega)
  have late : ∀ k, 2181 ≤ k →
      (RxFrame.run uartParams RiscvTop.clkPerBit idleRx line k).regIn = true := by
    intro k after
    obtain ⟨x, rfl⟩ := Nat.exists_eq_add_of_le' (show 2 ≤ k by omega)
    rw [RxFrame.regIn_run]
    exact copy_line _ (by omega)
  have idle := (RxFrame.resting_high RxFrame.resting_idleRx early).1
  have low : (RxFrame.run uartParams RiscvTop.clkPerBit idleRx line 11).regIn = false :=
    (RxFrame.regIn_run 9).trans (by decide)
  have round : RxFrame.roundClocks RiscvTop.clkPerBit = 2172 := by decide
  have pulse := RxFrame.hears_run (by decide) (by decide) idle low
  rw [round] at pulse
  rw [copy_rx, UartRx.rxDone]
  rcases Nat.lt_trichotomy n 2183 with before | rfl | after
  · have quiet : (RxFrame.run uartParams RiscvTop.clkPerBit idleRx line n).dataDone = false := by
      by_cases start : n ≤ 11
      · exact (RxFrame.resting_high RxFrame.resting_idleRx
          fun k inside => early k (by omega)).2.1
      · obtain ⟨k, rfl⟩ := Nat.exists_eq_add_of_le (show 11 ≤ n by omega)
        exact (RxFrame.within_run (by decide) (by decide) idle low (by omega) (by omega)).2
    rw [quiet]
    exact ⟨iff_of_false Bool.false_ne_true (by omega), fun same => by omega⟩
  · refine ⟨iff_of_true pulse.dataDone rfl, fun _ => pulse.rxOut.trans ?_⟩
    refine (RxFrame.gather_eq_iff _ _).mpr fun k inside => ?_
    have clock : 11 + 1 + RxFrame.halfBit RiscvTop.clkPerBit + RiscvTop.clkPerBit * (k + 1) =
        118 + 217 * (k + 1) + 2 := by
      change 11 + 1 + 108 + 217 * (k + 1) = _
      omega
    rw [RxFrame.sampled, clock, RxFrame.regIn_run]
    revert k
    decide
  · obtain ⟨k, rfl⟩ := Nat.exists_eq_add_of_le after.le
    have quiet := (RxFrame.idle_high (k := k) pulse.state fun j lo _ => late j (by omega)).2
      (by omega)
    rw [quiet]
    exact ⟨iff_of_false Bool.false_ne_true (by omega), fun same => by omega⟩

private theorem copy_input (n : ℕ) : (Top.socInput copyTop copyPins (n + 1)).rst = false ∧
    (Top.socInput copyTop copyPins (n + 1)).key1 = true ∧
    ((Top.socInput copyTop copyPins (n + 1)).rxDone = true ↔ n = 2183) :=
  ⟨by simp [Top.socInput, Top.socIn, Pins.rst, copyPins], rfl, (copy_byte n).1⟩

private theorem quiet_input {n : ℕ} (other : n ≠ 2183) :
    (Top.socInput copyTop copyPins (n + 1)).rxDone = false := by
  rw [← Bool.not_eq_true, (copy_input n).2.2]
  exact other

private theorem copy_halted (n : ℕ) (before : n ≤ 2183) :
    SameView (Top.run copyTop copyPins (n + 1)).soc copyTop.soc := by
  have parked : SameView (copyTop.soc.posedge RiscvTop.clkPerBit {}) copyTop.soc := by
    constructor <;> rfl
  induction n with
  | zero => constructor <;> rfl
  | succ n ih =>
    obtain ⟨rst, key1, -⟩ := copy_input n
    have next : SameView (Top.run copyTop copyPins (n + 1 + 1)).soc
        (copyTop.soc.posedge RiscvTop.clkPerBit {}) :=
      (ih (by omega)).posedge_quiet ⟨rst, rfl⟩ key1 ⟨quiet_input (by omega), rfl⟩ rfl
    exact next.trans parked

private theorem copy_resumed (n : ℕ) (now : n = 2183) :
    SameView (Top.run copyTop copyPins (n + 2)).soc copyBoard := by
  have halted := copy_halted n now.le
  obtain ⟨rst, key1, arrives⟩ := copy_input n
  have code : (Top.socInput copyTop copyPins (n + 1)).rxData = Command.resume.code :=
    (copy_byte n).2 now
  have resumed : (Top.run copyTop copyPins (n + 2)).soc.dbg.fsm =
      (counted (Top.run copyTop copyPins (n + 1)).soc.dbg.fsm).command .resume :=
    fsm_byte halted.idle rst (arrives.mpr now) code
  have parked : SameView (copyTop.soc.posedge RiscvTop.clkPerBit
      { rxDone := true, rxData := Command.resume.code }) copyBoard := by
    constructor <;> rfl
  have next : SameView (Top.run copyTop copyPins (n + 2)).soc
      (copyTop.soc.posedge RiscvTop.clkPerBit
        { rxDone := true, rxData := Command.resume.code }) := by
    have off : (Top.run copyTop copyPins (n + 2)).soc.dbg.fsm.halt = false :=
      congr_arg DebugRegs.halt resumed
    exact halted.posedge rst key1 rfl ((congr_arg DebugRegs.state resumed).trans halted.idle) rfl
      off
  exact next.trans parked

private theorem copy_running (n : ℕ) (before : n ≤ 12) :
    SameView (Top.run copyTop copyPins (2185 + n)).soc
      (Soc.run RiscvTop.clkPerBit copyBoard (fun _ => {}) n) := by
  have inside : ∀ k < 12,
      (Soc.run RiscvTop.clkPerBit copyBoard (fun _ => {}) k).bramSel {} = true := by
    decide +kernel
  induction n with
  | zero => exact copy_resumed 2183 rfl
  | succ n ih =>
    obtain ⟨rst, key1, -⟩ := copy_input (2184 + n)
    have quiet := quiet_input (show 2184 + n ≠ 2183 by omega)
    have clock : 2185 + n = 2184 + n + 1 := by omega
    rw [← clock] at rst key1 quiet
    exact (ih (by omega)).posedge_quiet ⟨rst, rfl⟩ key1 ⟨quiet, rfl⟩ (inside n (by omega))

private theorem copy_port {k n : ℕ} (clock : n + 1 = 2185 + k) (before : k ≤ 12) :
    let t := (Top.run copyTop copyPins (n + 1)).soc
    let u := Soc.run RiscvTop.clkPerBit copyBoard (fun _ => {}) k
    let i := Top.socInput copyTop copyPins (n + 1)
    t.halt i = u.halt {} ∧ t.dataPort i = u.dataPort {} ∧ t.dmemRvalid i = u.dmemRvalid {} := by
  intro t u i
  have same : SameView t u := by
    have running := copy_running k before
    rw [← clock] at running
    exact running
  obtain ⟨rst, key1, -⟩ := copy_input n
  have port : t.dataPort i = u.dataPort {} := same.dataPort rst
  refine ⟨?_, port, ?_⟩
  · rw [Soc.halt, Soc.halt, same.halt, key1]
  · rw [Soc.dmemRvalid, Soc.dmemRvalid, Soc.dmemReq, Soc.dmemAddr, port, same.dmemAddrPrev]
    rfl

private theorem copy_load {n : ℕ} (clock : n + 1 = 2185 + 5) :
    let t := (Top.run copyTop copyPins (n + 1)).soc
    let i := Top.socInput copyTop copyPins (n + 1)
    t.halt i = false ∧ t.dmemRvalid i = true ∧ t.dmemAddr i = 16 ∧ t.dmemRe i = true := by
  obtain ⟨halt, port, valid⟩ := copy_port clock (by decide)
  exact ⟨halt.trans (by decide +kernel), valid.trans (by decide +kernel),
    (congr_arg DataPort.addr port).trans (by decide +kernel),
    (congr_arg DataPort.re port).trans (by decide +kernel)⟩

private theorem copy_store {n : ℕ} (clock : n + 1 = 2185 + 10) :
    let t := (Top.run copyTop copyPins (n + 1)).soc
    let i := Top.socInput copyTop copyPins (n + 1)
    t.halt i = false ∧ t.dmemRvalid i = true ∧ t.dmemAddr i = 20 ∧ t.dmemWe i = true ∧
      t.dmemByteena i = 15 ∧ t.dmemWdata i = 0xDEADBEEF := by
  obtain ⟨halt, port, valid⟩ := copy_port clock (by decide)
  exact ⟨halt.trans (by decide +kernel), valid.trans (by decide +kernel),
    (congr_arg DataPort.addr port).trans (by decide +kernel),
    (congr_arg DataPort.we port).trans (by decide +kernel),
    (congr_arg DataPort.byteena port).trans (by decide +kernel),
    (congr_arg DataPort.wdata port).trans (by decide +kernel)⟩

/-- The load returns word 4, and the store leaves its bytes in word 5. -/
theorem bram_accesses_are_current_copy :
    (Top.run copyTop copyPins 2190).soc.ldData (Top.socInput copyTop copyPins 2190) =
        (Top.run copyTop copyPins 2190).soc.bram.mem 4 ∧
      ∀ k < 4, lane ((Top.run copyTop copyPins 2196).soc.bram.mem 5) k = lane 0xDEADBEEF k := by
  obtain ⟨n, load⟩ : ∃ n, n + 1 = 2190 := ⟨2189, rfl⟩
  obtain ⟨m, store⟩ : ∃ m, m + 1 = 2195 := ⟨2194, rfl⟩
  have after : 2196 = m + 2 := by omega
  rw [← load, after]
  constructor
  · obtain ⟨running, valid, addr, re⟩ := copy_load load
    have word := congr_arg wordIndex addr
    have done := (bram_accesses_are_current copyTop copyPins rfl (fun _ => rfl) n).2 running
      (Bool.and_eq_true_iff.mp valid).1 valid ((congr_arg inBram addr).trans (by decide))
    rw [done.1 re, word]
    rfl
  · obtain ⟨running, valid, addr, we, byteena, wdata⟩ := copy_store store
    have word : wordIndex _ = (5 : BramAddr) := congr_arg wordIndex addr
    have done := (bram_accesses_are_current copyTop copyPins rfl (fun _ => rfl) m).2 running
      (Bool.and_eq_true_iff.mp valid).1 valid ((congr_arg inBram addr).trans (by decide))
    have enabled : ∀ k < 4, (15 : BitVec 4).getLsbD k = true := by decide
    intro k lanes
    have written := (done.2 we).1 k lanes
    rw [word, byteena, wdata, if_pos (enabled k lanes)] at written
    exact written

end Example

end RiscvSoc.Fpga.BramAccess
