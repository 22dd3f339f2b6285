/- GID: RiscvSoc/Peripherals/DebugWrite
   generality: G
   utility: main
   digest: Memory accesses of the debug UART, over any stream of bytes. -/

import RiscvSoc.Peripherals.DebugReceive

set_option autoImplicit false
set_option relaxedAutoImplicit false

namespace RiscvSoc.Peripherals.DebugWrite

open RiscvSoc.Clocked.Trajectory
open RiscvSoc.Cpu.Decoder
open RiscvSoc.Memory.ByteLanes
open RiscvSoc.Peripherals.Uart
open RiscvSoc.Peripherals.DebugUart
open RiscvSoc.Peripherals.DebugReply
open RiscvSoc.Peripherals.DebugReceive

/-- The commands that need a halted core. -/
inductive Access where
  | writeMem
  | readMem
  | readMmio
  deriving DecidableEq

namespace Access

def command : Access → Command
  | writeMem => .writeMem
  | readMem => .readMem
  | readMmio => .readMmio

/-- The bytes that follow the opcode. READ_MEM and READ_MMIO have no data. -/
def arguments (addr data : Word) : Access → List Byte
  | writeMem => wordBytes addr ++ wordBytes data
  | readMem | readMmio => wordBytes addr

end Access

section Registers

/-- How far WRITE_MEM has come when `bs` have been taken in after its opcode. -/
def Position (bs : List Byte) (r : DebugRegs) : Prop :=
  match r.state with
  | .recvMemAddr => r.memIsWrite = true ∧ bs.length = r.rxByteIdx.toNat
  | .recvMemData => bs.length = 4 + r.rxByteIdx.toNat
  | .memWritePulse => bs.length = 8
  | _ => False

/-- The bytes taken in are where they belong. -/
structure Holds (bs : List Byte) (r : DebugRegs) : Prop where
  memAddr : ∀ k < 4, k < bs.length → lane r.memAddr k = bs.getD k 0
  memWdata : ∀ k < 4, 4 + k < bs.length → lane r.memWdata k = bs.getD (4 + k) 0

def collects (r : DebugRegs) : Bool :=
  match r.state with
  | .recvMemAddr => r.memIsWrite
  | .recvMemData => true
  | _ => false

variable {r : DebugRegs} {bs : List Byte} {b : Byte}

private theorem awaits_of_collects (here : collects r = true) : r.awaits = true := by
  unfold collects at here
  split at here
  · next state => simp [DebugRegs.awaits, state]
  · next state => simp [DebugRegs.awaits, state]
  · exact absurd here (by simp)

private theorem index_succ {k : BitVec 2} (more : k ≠ 3) : (k + 1).toNat = k.toNat + 1 := by
  have small : k.toNat ≠ 3 := fun full => more (BitVec.eq_of_toNat_eq full)
  have bound := k.isLt
  rw [BitVec.toNat_add]
  simp
  omega

private theorem position_argument (here : collects r = true) (place : Position bs r) :
    Position (bs ++ [b]) (r.argument b) := by
  unfold collects at here
  cases state : r.state <;> simp only [state, Bool.false_eq_true] at here <;>
    simp only [Position, state] at place
  case recvMemAddr =>
    simp only [DebugRegs.argument, state]
    split
    · next last => simp [Position, place, last]
    · next more =>
      change r.memIsWrite = true ∧ (bs ++ [b]).length = (r.rxByteIdx + 1).toNat
      rw [index_succ more, List.length_append, place.2]
      exact ⟨here, rfl⟩
  case recvMemData =>
    simp only [DebugRegs.argument, state]
    split
    · next last => simp [Position, place, last]
    · next more =>
      change (bs ++ [b]).length = 4 + (r.rxByteIdx + 1).toNat
      rw [index_succ more, List.length_append, place]
      rfl

private theorem getD_append_before {k : ℕ} (before : k < bs.length) :
    (bs ++ [b]).getD k 0 = bs.getD k 0 := by
  rw [List.getD_eq_getElem?_getD, List.getElem?_append_left before, List.getD_eq_getElem?_getD]

private theorem getD_append_last {k : ℕ} (last : k = bs.length) : (bs ++ [b]).getD k 0 = b := by
  simp [List.getD_eq_getElem?_getD, last]

private theorem lane_setLane_append {w : Word} {j k off : ℕ} (index : j < 4) (small : k < 4)
    (place : bs.length = off + j) (inside : off + k < (bs ++ [b]).length)
    (held : off + k < bs.length → lane w k = bs.getD (off + k) 0) :
    lane (setLane w j b) k = (bs ++ [b]).getD (off + k) 0 := by
  rw [List.length_append, List.length_singleton] at inside
  rw [lane_setLane _ _ small index]
  by_cases same : k = j
  · rw [if_pos same, getD_append_last (by omega)]
  · rw [if_neg same, getD_append_before (by omega)]
    exact held (by omega)

private theorem holds_argument (here : collects r = true) (place : Position bs r)
    (holds : Holds bs r) :
    Holds (bs ++ [b]) (r.argument b) := by
  have index := r.rxByteIdx.isLt
  unfold collects at here
  cases state : r.state <;> simp only [state, Bool.false_eq_true] at here <;>
    simp only [Position, state] at place
  case recvMemAddr =>
    have addr : (r.argument b).memAddr = setLane r.memAddr r.rxByteIdx.toNat b := by
      simp only [DebugRegs.argument, state]
      split <;> rfl
    constructor
    · intro k small inside
      rw [addr]
      have set := @lane_setLane_append bs b r.memAddr _ k 0 index small (by omega) (by omega)
      simpa using set fun earlier => by simpa using holds.memAddr k small (by omega)
    · intro k small inside
      rw [List.length_append, List.length_singleton] at inside
      omega
  case recvMemData =>
    have addr : (r.argument b).memAddr = r.memAddr := by
      simp only [DebugRegs.argument, state]
      split <;> rfl
    have data : (r.argument b).memWdata = setLane r.memWdata r.rxByteIdx.toNat b := by
      simp only [DebugRegs.argument, state]
      split <;> rfl
    constructor
    · intro k small inside
      rw [addr, getD_append_before (by omega)]
      exact holds.memAddr k small (by omega)
    · intro k small inside
      rw [data]
      exact lane_setLane_append index small place inside (holds.memWdata k small)

private theorem position_command (halt : r.halt = true) : Position [] (r.command .writeMem) := by
  simp [Position, DebugRegs.command, halt]

private theorem holds_nil (r : DebugRegs) : Holds [] r := by
  constructor
  · intro k _ inside
    exact absurd inside (by simp)
  · intro k _ inside
    exact absurd inside (by simp)

private theorem dbgMemWe_of_position (place : Position bs r) :
    r.dbgMemWe = true ↔ bs.length = 8 := by
  have index := r.rxByteIdx.isLt
  cases state : r.state <;> simp only [Position, state] at place <;>
    simp only [DebugRegs.dbgMemWe, state]
  case recvMemAddr =>
    constructor
    · exact fun pulse => absurd pulse (by decide)
    · intro full
      omega
  case recvMemData =>
    constructor
    · exact fun pulse => absurd pulse (by decide)
    · intro full
      omega
  case memWritePulse => simp [place]

private theorem collects_of_position (place : Position bs r) (more : bs.length < 8) :
    collects r = true := by
  cases state : r.state <;> simp only [Position, state] at place <;> simp only [collects, state]
  case recvMemAddr => exact place.1
  case memWritePulse => omega

private theorem bytes_of_holds (full : bs.length = 8) (holds : Holds bs r) :
    bs = wordBytes r.memAddr ++ wordBytes r.memWdata := by
  apply List.ext_getElem
  · simp [full]
  · intro k inside _
    have get : bs[k] = bs.getD k 0 := by simp [List.getD_eq_getElem?_getD, inside]
    rw [get]
    by_cases addr : k < 4
    · rw [← holds.memAddr k addr inside, List.getElem_append_left (by simpa using addr)]
      simp [wordBytes]
    · obtain ⟨j, rfl⟩ := Nat.exists_eq_add_of_le (Nat.not_lt.mp addr)
      rw [← holds.memWdata j (by omega) inside, List.getElem_append_right (by simp)]
      simp [wordBytes]

theorem code_of_ofByte {c : Command} (command : Command.ofByte b = some c) : b = c.code := by
  have found := List.find?_some command
  simpa using found

/-- WRITE_MEM is under way: a byte is awaited, or the write is pulsed. -/
def writes (r : DebugRegs) : Bool := collects r || r.dbgMemWe

private theorem writes_command {c : Command} (idle : r.state = .cmdIdle)
    (next : writes (r.command c) = true) : c = .writeMem ∧ r.halt = true := by
  have outside : writes r = false := by simp [writes, collects, DebugRegs.dbgMemWe, idle]
  cases c with
  | writeMem =>
    by_cases halt : r.halt = true
    · exact ⟨rfl, halt⟩
    · simp [DebugRegs.command, halt, outside] at next
  | readMem | readMmio =>
    by_cases halt : r.halt = true
    · simp [DebugRegs.command, halt, writes, collects, DebugRegs.dbgMemWe] at next
    · simp [DebugRegs.command, halt, outside] at next
  | _ => simp [DebugRegs.command, writes, collects, DebugRegs.dbgMemWe, idle] at next

private theorem writes_argument (awaits : r.awaits = true) (next : writes (r.argument b) = true) :
    collects r = true := by
  revert next
  cases state : r.state <;> simp [DebugRegs.awaits, state] at awaits <;>
    simp only [DebugRegs.argument, state, collects]
  case waitArg => simp [writes, collects, DebugRegs.dbgMemWe]
  case waitArgCsr => split <;> simp [writes, collects, DebugRegs.dbgMemWe]
  case recvMemAddr =>
    cases r.memIsWrite
    case true => simp
    case false => split <;> simp [writes, collects, DebugRegs.dbgMemWe]
  case recvMemData => simp
  case recvMmioAddr => split <;> simp [writes, collects, DebugRegs.dbgMemWe]

variable {clkPerBit : ℕ} {txBusy : Bool} {j : DebugIn}

private theorem awaits_late (awaits : r.awaits = true) (quiet : j.rxDone = false)
    (late : r.timedOut clkPerBit = true) :
    (r.advance clkPerBit txBusy j).state = .cmdIdle := by
  cases state : r.state <;> simp [DebugRegs.awaits, state] at awaits <;>
    simp [DebugRegs.advance, state, quiet, late]

private theorem not_writes_idle (idle : r.state = .cmdIdle) : writes r = false := by
  simp [writes, collects, DebugRegs.dbgMemWe, idle]

private theorem not_writes_advance (awaits : r.awaits = false) (busy : r.state ≠ .cmdIdle) :
    writes (r.advance clkPerBit txBusy j) = false := by
  cases state : r.state <;> simp [DebugRegs.awaits, state] at awaits busy <;>
    simp only [DebugRegs.advance, state]
  all_goals
    repeat' split
    all_goals simp [writes, collects, DebugRegs.dbgMemWe]

/-- WRITE_MEM starts with its opcode in `CMD_IDLE` of a halted core, and goes on with a byte or
with a clock of waiting. -/
private theorem writes_advance (next : writes (r.advance clkPerBit txBusy j) = true) :
    (r.state = .cmdIdle ∧ r.halt = true ∧ heard j = some Command.writeMem.code) ∨
      collects r = true ∧ (heard j = none → r.timedOut clkPerBit = false) := by
  cases awaits : r.awaits with
  | true =>
    right
    cases done : j.rxDone with
    | true =>
      rw [awaits_byte clkPerBit txBusy awaits done] at next
      have here : collects (counted r) = true := writes_argument awaits next
      exact ⟨here, fun silent => absurd silent (by simp [heard, done])⟩
    | false =>
      cases late : r.timedOut clkPerBit with
      | true =>
        rw [not_writes_idle (awaits_late awaits done late)] at next
        exact absurd next (by decide)
      | false =>
        rw [awaits_quiet txBusy awaits done late] at next
        have pulse : (counted r).dbgMemWe = false := by
          change r.dbgMemWe = false
          cases state : r.state <;> simp [DebugRegs.awaits, state] at awaits <;>
            simp [DebugRegs.dbgMemWe, state]
        have here : collects (counted r) = true := by simpa [writes, pulse] using next
        exact ⟨here, fun _ => rfl⟩
  | false =>
    left
    have idle : r.state = .cmdIdle := by
      by_contra busy
      rw [not_writes_advance awaits busy] at next
      exact absurd next (by decide)
    cases done : j.rxDone with
    | false =>
      rw [idle_quiet clkPerBit txBusy idle done] at next
      exact absurd next (by simp [not_writes_idle (r := counted r) idle])
    | true =>
      cases command : Command.ofByte j.rxData with
      | none =>
        have stays : (r.advance clkPerBit txBusy j).state = .cmdIdle := by
          simp [DebugRegs.advance, idle, done, command]
        rw [not_writes_idle stays] at next
        exact absurd next (by decide)
      | some c =>
        rw [idle_byte clkPerBit txBusy idle done (code_of_ofByte command)] at next
        obtain ⟨rfl, halt⟩ := writes_command (r := counted r) idle next
        exact ⟨idle, halt, by simp [heard, done, code_of_ofByte command]⟩

end Registers

section Stream

variable (clkPerBit : ℕ) (u : DbgUart) (i : ℕ → DebugIn)

/-- No byte and no reset. -/
def Quiet (j : DebugIn) : Prop := j.rst = false ∧ heard j = none

/-- A byte outside reset. -/
def Heard (j : DebugIn) (b : Byte) : Prop := j.rst = false ∧ heard j = some b

/-- After the byte of clock `m` these bytes come in, each before the timeout of the one before it,
without a reset in between, the last one in clock `last`. -/
def Consecutive : ℕ → List Byte → ℕ → Prop
  | m, [], last => last = m
  | m, b :: bs, last => ∃ k, m < k ∧ k ≤ m + clkPerBit * timeoutBitPeriods + 1 ∧
      (∀ x, m < x → x < k → Quiet (i x)) ∧ Heard (i k) b ∧ Consecutive k bs last

instance (j : DebugIn) : Decidable (Quiet j) := inferInstanceAs (Decidable (_ ∧ _))

instance (j : DebugIn) (b : Byte) : Decidable (Heard j b) := inferInstanceAs (Decidable (_ ∧ _))

instance decidableConsecutive : ∀ (m : ℕ) (bs : List Byte) (last : ℕ),
    Decidable (Consecutive clkPerBit i m bs last)
  | m, [], last => inferInstanceAs (Decidable (last = m))
  | m, b :: bs, last =>
    have := fun k => decidableConsecutive k bs last
    decidable_of_iff (∃ k < m + clkPerBit * timeoutBitPeriods + 2, m < k ∧ Heard (i k) b ∧
        (∀ x < k, m < x → Quiet (i x)) ∧ Consecutive clkPerBit i k bs last)
      ⟨fun ⟨k, timely, later, byte, silent, rest⟩ =>
          ⟨k, later, by omega, fun x lo hi => silent x hi lo, byte, rest⟩,
        fun ⟨k, later, timely, silent, byte, rest⟩ =>
          ⟨k, by omega, later, byte, fun x hi lo => silent x lo hi, rest⟩⟩

/-- WRITE_MEM as it comes in: nine bytes in a row, the first of them taken from `CMD_IDLE` while
the core is halted. -/
structure WriteMem where
  first : ℕ
  last : ℕ
  addr : Word
  data : Word

structure WriteMem.Received (w : WriteMem) : Prop where
  idle : (run clkPerBit u i w.first).fsm.state = .cmdIdle
  halt : (run clkPerBit u i w.first).fsm.halt = true
  opcode : Heard (i w.first) Command.writeMem.code
  bytes : Consecutive clkPerBit i w.first (wordBytes w.addr ++ wordBytes w.data) w.last

/-- The bytes heard before clock `n`. -/
def heardBefore (i : ℕ → DebugIn) : ℕ → List Byte
  | 0 => []
  | n + 1 => heardBefore i n ++ (heard (i n)).toList

/-- At clock `n` WRITE_MEM of clock `first` has been followed by the bytes `bs`, the last byte of
all came in clock `m`, and the registers show it. -/
structure Collected (first m : ℕ) (bs : List Byte) (n : ℕ) : Prop where
  idle : (run clkPerBit u i first).fsm.state = .cmdIdle
  halt : (run clkPerBit u i first).fsm.halt = true
  opcode : Heard (i first) Command.writeMem.code
  bytes : Consecutive clkPerBit i first bs m
  later : m < n
  silent : ∀ x, m < x → x < n → Quiet (i x)
  position : Position bs (run clkPerBit u i n).fsm
  holds : Holds bs (run clkPerBit u i n).fsm
  timely : n ≤ m + clkPerBit * timeoutBitPeriods + 1
  timer : collects (run clkPerBit u i n).fsm = true →
    (run clkPerBit u i n).fsm.rxTimeoutCnt.toNat = n - (m + 1)
  pulse : (run clkPerBit u i n).fsm.dbgMemWe = true → n = m + 1

variable {clkPerBit : ℕ} {u : DbgUart} {i : ℕ → DebugIn} {first m k last n : ℕ} {bs cs : List Byte}
  {b : Byte}

private theorem consecutive_snoc (bytes : Consecutive clkPerBit i m bs k) (later : k < n)
    (timely : n ≤ k + clkPerBit * timeoutBitPeriods + 1)
    (silent : ∀ x, k < x → x < n → Quiet (i x)) (byte : Heard (i n) b) :
    Consecutive clkPerBit i m (bs ++ [b]) n := by
  induction bs generalizing m with
  | nil =>
    obtain rfl : k = m := bytes
    exact ⟨n, later, timely, silent, byte, rfl⟩
  | cons c bs ih =>
    obtain ⟨x, after, inTime, quiet, heard, rest⟩ := bytes
    exact ⟨x, after, inTime, quiet, heard, ih rest⟩

theorem le_of_consecutive (bytes : Consecutive clkPerBit i m bs last) : m ≤ last := by
  induction bs generalizing m with
  | nil => exact Eq.ge bytes
  | cons b bs ih =>
    obtain ⟨k, later, -, -, -, rest⟩ := bytes
    have := ih rest
    omega

private theorem heardBefore_silent (le : m ≤ n) (silent : ∀ x, m ≤ x → x < n → Quiet (i x)) :
    heardBefore i n = heardBefore i m := by
  induction n, le using Nat.le_induction with
  | base => rfl
  | succ n le ih =>
    rw [heardBefore, (silent n le (by omega)).2, ih fun x lo hi => silent x lo (by omega)]
    simp

private theorem heardBefore_byte (byte : Heard (i n) b) :
    heardBefore i (n + 1) = heardBefore i n ++ [b] := by
  rw [heardBefore, byte.2]
  rfl

private theorem heardBefore_mono (le : m ≤ n) :
    (heardBefore i m).length ≤ (heardBefore i n).length := by
  induction n, le using Nat.le_induction with
  | base => exact le_rfl
  | succ n _ ih =>
    rw [heardBefore, List.length_append]
    omega

private theorem heardBefore_consecutive (bytes : Consecutive clkPerBit i m bs last) :
    heardBefore i (last + 1) = heardBefore i (m + 1) ++ bs := by
  induction bs generalizing m with
  | nil =>
    obtain rfl : last = m := bytes
    simp
  | cons b bs ih =>
    obtain ⟨k, after, -, silent, byte, rest⟩ := bytes
    rw [ih rest, heardBefore_byte byte, heardBefore_silent after silent]
    simp

private theorem consecutive_start (here : Consecutive clkPerBit i m bs last)
    (there : Consecutive clkPerBit i k cs last) (same : bs.length = cs.length)
    (mByte : Heard (i m) b) (kByte : Heard (i k) b) : m = k := by
  have logs := congrArg List.length
    ((heardBefore_consecutive here).symm.trans (heardBefore_consecutive there))
  rw [List.length_append, List.length_append, heardBefore_byte mByte, heardBefore_byte kByte,
    List.length_append, List.length_append, same] at logs
  rcases Nat.lt_trichotomy m k with lt | eq | gt
  · have more := heardBefore_mono (i := i) (show m + 1 ≤ k from lt)
    rw [heardBefore_byte mByte, List.length_append, List.length_singleton] at more
    omega
  · exact eq
  · have more := heardBefore_mono (i := i) (show k + 1 ≤ m from gt)
    rw [heardBefore_byte kByte, List.length_append, List.length_singleton] at more
    omega

/-- An edge outside reset. -/
theorem fsm_succ (noRst : (i n).rst = false) :
    (run clkPerBit u i (n + 1)).fsm =
      (run clkPerBit u i n).fsm.advance clkPerBit (run clkPerBit u i n).tx.busy (i n) := by
  simp only [trajectory_succ, DbgUart.posedge, noRst, Bool.false_eq_true, if_false]

private theorem collected_opcode (idle : (run clkPerBit u i n).fsm.state = .cmdIdle)
    (halt : (run clkPerBit u i n).fsm.halt = true) (byte : Heard (i n) Command.writeMem.code) :
    Collected clkPerBit u i n n [] (n + 1) := by
  obtain ⟨done, data⟩ := heard_some byte.2
  have step : (run clkPerBit u i (n + 1)).fsm =
      (counted (run clkPerBit u i n).fsm).command .writeMem := by
    rw [fsm_succ byte.1, idle_byte _ _ idle done data]
  have waits : (run clkPerBit u i (n + 1)).fsm.rxTimeoutCnt = 0 ∧
      (run clkPerBit u i (n + 1)).fsm.state = .recvMemAddr := by
    have counting : (counted (run clkPerBit u i n).fsm).halt = true := halt
    rw [step]
    simp [DebugRegs.command, counting]
  constructor
  case idle => exact idle
  case halt => exact halt
  case opcode => exact byte
  case bytes => exact rfl
  case later => omega
  case silent => exact fun x lo hi => by omega
  case position => rw [step]; exact position_command halt
  case holds => exact holds_nil _
  case timely => omega
  case timer => intro _; rw [waits.1]; simp
  case pulse => intro _; rfl

private theorem collected_byte (here : Collected clkPerBit u i first m bs n)
    (collecting : collects (run clkPerBit u i n).fsm = true) (byte : Heard (i n) b) :
    Collected clkPerBit u i first n (bs ++ [b]) (n + 1) := by
  obtain ⟨done, rfl⟩ := heard_some byte.2
  have awaits := awaits_of_collects collecting
  have step : (run clkPerBit u i (n + 1)).fsm =
      (counted (run clkPerBit u i n).fsm).argument (i n).rxData := by
    rw [fsm_succ byte.1, awaits_byte _ _ awaits done]
  constructor
  case idle => exact here.idle
  case halt => exact here.halt
  case opcode => exact here.opcode
  case bytes => exact consecutive_snoc here.bytes here.later here.timely here.silent byte
  case later => omega
  case silent => exact fun x lo hi => by omega
  case position =>
    rw [step]
    exact position_argument (r := counted (run clkPerBit u i n).fsm) collecting here.position
  case holds =>
    rw [step]
    refine holds_argument (r := counted (run clkPerBit u i n).fsm) collecting here.position ?_
    exact ⟨here.holds.memAddr, here.holds.memWdata⟩
  case timely => omega
  case timer =>
    intro more
    rw [step] at more ⊢
    rw [timeout_argument (r := counted (run clkPerBit u i n).fsm) awaits
      (awaits_of_collects more)]
    simp
  case pulse => intro _; rfl

private theorem collected_quiet (fits : clkPerBit < 2 ^ 16)
    (here : Collected clkPerBit u i first m bs n)
    (collecting : collects (run clkPerBit u i n).fsm = true) (quiet : Quiet (i n))
    (early : n ≤ m + clkPerBit * timeoutBitPeriods) :
    Collected clkPerBit u i first m bs (n + 1) := by
  have later := here.later
  have count := here.timer collecting
  have awaits := awaits_of_collects collecting
  have inTime : (run clkPerBit u i n).fsm.timedOut clkPerBit = false := by
    simp only [DebugRegs.timedOut, count, decide_eq_false_iff_not, not_le]
    simp only [timeoutBitPeriods] at early ⊢
    omega
  have step : (run clkPerBit u i (n + 1)).fsm = counted (run clkPerBit u i n).fsm := by
    rw [fsm_succ quiet.1, awaits_quiet _ awaits (heard_none quiet.2) inTime]
  constructor
  case idle => exact here.idle
  case halt => exact here.halt
  case opcode => exact here.opcode
  case bytes => exact here.bytes
  case later => omega
  case silent =>
    intro x lo hi
    rcases Nat.lt_succ_iff_lt_or_eq.mp hi with before | rfl
    · exact here.silent x lo before
    · exact quiet
  case position => rw [step]; exact here.position
  case holds => rw [step]; exact ⟨here.holds.memAddr, here.holds.memWdata⟩
  case timely => omega
  case timer =>
    intro _
    rw [step]
    change ((run clkPerBit u i n).fsm.rxTimeoutCnt + 1).toNat = n + 1 - (m + 1)
    simp only [timeoutBitPeriods] at early
    rw [BitVec.toNat_add, count]
    simp
    omega
  case pulse =>
    intro pulse
    rw [step] at pulse
    have none : (run clkPerBit u i n).fsm.dbgMemWe = false := by
      revert awaits
      simp only [DebugRegs.awaits, DebugRegs.dbgMemWe]
      cases (run clkPerBit u i n).fsm.state <;> simp
    exact absurd (none.symm.trans pulse) (by decide)

private theorem collected_wait (fits : clkPerBit < 2 ^ 16)
    (here : Collected clkPerBit u i first m bs (m + 1)) (more : bs.length < 8)
    (after : m < k) (timely : k ≤ m + clkPerBit * timeoutBitPeriods + 1)
    (silent : ∀ x, m < x → x < k → Quiet (i x)) : Collected clkPerBit u i first m bs k := by
  induction k, after using Nat.le_induction with
  | base => exact here
  | succ k after ih =>
    have before := ih (by omega) fun x lo hi => silent x lo (by omega)
    exact collected_quiet fits before (collects_of_position before.position more)
      (silent k after (by omega)) (by omega)

private theorem collected_consecutive (fits : clkPerBit < 2 ^ 16)
    (here : Collected clkPerBit u i first m bs (m + 1)) (enough : bs.length + cs.length ≤ 8)
    (follow : Consecutive clkPerBit i m cs last) :
    Collected clkPerBit u i first last (bs ++ cs) (last + 1) := by
  induction cs generalizing m bs with
  | nil =>
    obtain rfl : last = m := follow
    simpa using here
  | cons c cs ih =>
    obtain ⟨k, after, timely, silent, byte, rest⟩ := follow
    rw [List.length_cons] at enough
    have wait := collected_wait fits here (by omega) after timely silent
    have taken := collected_byte wait (collects_of_position wait.position (by omega)) byte
    have tail := ih taken (by rw [List.length_append, List.length_singleton]; omega) rest
    simpa using tail

private theorem collected_of_writes (fits : clkPerBit < 2 ^ 16) (reset : (i 0).rst = true) (n : ℕ)
    (writing : writes (run clkPerBit u i (n + 1)).fsm = true) :
    ∃ first m bs, Collected clkPerBit u i first m bs (n + 1) := by
  have cleared : ∀ n, (i n).rst = true → writes (run clkPerBit u i (n + 1)).fsm = false := by
    intro n rst
    apply not_writes_idle
    simp [trajectory_succ, DbgUart.posedge, rst, DebugRegs.reset]
  induction n with
  | zero => exact absurd writing (by simp [cleared 0 reset])
  | succ n ih =>
    have noRst : (i (n + 1)).rst = false := by
      rw [Bool.eq_false_iff]
      intro rst
      exact absurd writing (by simp [cleared (n + 1) rst])
    rw [fsm_succ noRst] at writing
    rcases writes_advance writing with ⟨idle, halt, byte⟩ | ⟨collecting, inTime⟩
    · exact ⟨n + 1, n + 1, [], collected_opcode idle halt ⟨noRst, byte⟩⟩
    · obtain ⟨first, m, bs, here⟩ := ih (by simp [writes, collecting])
      have later := here.later
      cases byte : heard (i (n + 1)) with
      | some b => exact ⟨first, n + 1, bs ++ [b], collected_byte here collecting ⟨noRst, byte⟩⟩
      | none =>
        refine ⟨first, m, bs, collected_quiet fits here collecting ⟨noRst, byte⟩ ?_⟩
        have early := inTime byte
        simp only [DebugRegs.timedOut, here.timer collecting, decide_eq_false_iff_not,
          not_le] at early
        simp only [timeoutBitPeriods] at early ⊢
        omega

private theorem pulse_of_received (fits : clkPerBit < 2 ^ 16) {w : WriteMem}
    (received : w.Received clkPerBit u i) :
    (run clkPerBit u i (w.last + 1)).fsm.dbgMemWe = true ∧
      (run clkPerBit u i (w.last + 1)).fsm.memAddr = w.addr ∧
      (run clkPerBit u i (w.last + 1)).fsm.memWdata = w.data := by
  have start := collected_opcode received.idle received.halt received.opcode
  have all := collected_consecutive fits start (by simp) received.bytes
  rw [List.nil_append] at all
  have full : (wordBytes w.addr ++ wordBytes w.data).length = 8 := by simp
  obtain ⟨addr, data⟩ := List.append_inj (bytes_of_holds full all.holds) (by simp)
  exact ⟨(dbgMemWe_of_position all.position).mpr full, (wordBytes_inj addr).symm,
    (wordBytes_inj data).symm⟩

private theorem received_of_pulse (fits : clkPerBit < 2 ^ 16) (reset : (i 0).rst = true)
    (pulse : (run clkPerBit u i (n + 1)).fsm.dbgMemWe = true) :
    ∃ w : WriteMem, w.Received clkPerBit u i ∧ w.last = n := by
  obtain ⟨first, m, bs, all⟩ := collected_of_writes (u := u) fits reset n
    (by simp [writes, pulse])
  have now := all.pulse pulse
  have full := (dbgMemWe_of_position all.position).mp pulse
  refine ⟨⟨first, n, (run clkPerBit u i (n + 1)).fsm.memAddr,
    (run clkPerBit u i (n + 1)).fsm.memWdata⟩, ?_, rfl⟩
  constructor
  · exact all.idle
  · exact all.halt
  · exact all.opcode
  · change Consecutive clkPerBit i first _ n
    rw [← bytes_of_holds full all.holds]
    obtain rfl : m = n := by omega
    exact all.bytes

private theorem received_unique (fits : clkPerBit < 2 ^ 16) {v w : WriteMem}
    (vReceived : v.Received clkPerBit u i) (wReceived : w.Received clkPerBit u i)
    (same : v.last = w.last) : v = w := by
  obtain ⟨-, vAddr, vData⟩ := pulse_of_received fits vReceived
  obtain ⟨-, wAddr, wData⟩ := pulse_of_received fits wReceived
  have vBytes := vReceived.bytes
  rw [same] at vAddr vData vBytes
  have start := consecutive_start vBytes wReceived.bytes (by simp) vReceived.opcode
    wReceived.opcode
  obtain ⟨vFirst, vLast, vA, vD⟩ := v
  obtain ⟨wFirst, wLast, wA, wD⟩ := w
  simp only [WriteMem.mk.injEq]
  exact ⟨start, same, vAddr.symm.trans wAddr, vData.symm.trans wData⟩

end Stream

section Halted

/-- Halted, and in no state of STEP. -/
structure Engaged (r : DebugRegs) : Prop where
  halt : r.halt = true
  noAssert : r.state ≠ .stepAssert
  noDeassert : r.state ≠ .stepDeassert

variable {r : DebugRegs} {clkPerBit : ℕ} {txBusy : Bool} {j : DebugIn} {c : Access}

private theorem engaged_advance (engaged : Engaged r) (busy : r.state ≠ .cmdIdle) :
    Engaged (r.advance clkPerBit txBusy j) := by
  obtain ⟨halt, noAssert, noDeassert⟩ := engaged
  cases state : r.state <;> simp only [state, ne_eq, not_true_eq_false] at busy noAssert noDeassert
  case waitArg | waitArgCsr | recvMemAddr | recvMemData | recvMmioAddr =>
    simp only [DebugRegs.advance, state]
    split
    · constructor
      · rw [DebugRegs.halt_argument]
        exact halt
      · simp only [DebugRegs.argument]
        repeat' split
        all_goals simp
      · simp only [DebugRegs.argument]
        repeat' split
        all_goals simp
    · split <;> constructor <;> simp [halt]
  all_goals
    simp only [DebugRegs.advance, state]
    repeat' split
    all_goals constructor <;> simp [halt]

private theorem engaged_reset (txData : Byte) : Engaged (DebugRegs.reset txData) := by
  constructor <;> simp [DebugRegs.reset]

private theorem engaged_command (halt : r.halt = true) : Engaged (r.command c.command) := by
  cases c <;> constructor <;> simp [Access.command, DebugRegs.command, halt]

variable {u : DbgUart} {i : ℕ → DebugIn} {m n : ℕ} {b : Byte}

private theorem engaged_run (idle : (run clkPerBit u i m).fsm.state = .cmdIdle)
    (halt : (run clkPerBit u i m).fsm.halt = true) (byte : Heard (i m) c.command.code)
    (after : m < n)
    (busy : ∀ x, m < x → x < n → (run clkPerBit u i x).fsm.state ≠ .cmdIdle) :
    Engaged (run clkPerBit u i n).fsm := by
  obtain ⟨done, data⟩ := heard_some byte.2
  induction n, after using Nat.le_induction with
  | base =>
    rw [fsm_succ byte.1, idle_byte _ _ idle done data]
    exact engaged_command (r := counted (run clkPerBit u i m).fsm) halt
  | succ n after ih =>
    have before := ih fun x lo hi => busy x lo (by omega)
    by_cases rst : (i n).rst = true
    · simp only [trajectory_succ, DbgUart.posedge, rst, if_true]
      exact engaged_reset _
    · rw [fsm_succ (Bool.eq_false_iff.mpr rst)]
      exact engaged_advance before (busy n after (by omega))

private theorem haltedAccess_run (reset : (i 0).rst = true) (n : ℕ) :
    (run clkPerBit u i (n + 1)).fsm.HaltedAccess := by
  induction n with
  | zero => exact DbgUart.haltedAccess_reset clkPerBit u reset
  | succ n ih => exact DbgUart.haltedAccess_posedge ih (i (n + 1))

/-- Memory and peripherals are addressed while the core is halted only; an access command keeps
it halted until the FSM is back in `CMD_IDLE`; and the write pulses, of one clock each, are those
of the WRITE_MEM commands that came in, with the address and data of each. -/
theorem pulses_are_received (clkPerBit : ℕ) (fits : clkPerBit < 2 ^ 16) (u : DbgUart)
    (i : ℕ → DebugIn) (reset : (i 0).rst = true) :
    (∀ n, 0 < n → ((run clkPerBit u i n).fsm.dbgMemValid = true ∨
        (run clkPerBit u i n).fsm.dbgMmioValid = true) →
      (run clkPerBit u i n).fsm.halt = true) ∧
    (∀ m n (c : Access), (run clkPerBit u i m).fsm.state = .cmdIdle →
      (run clkPerBit u i m).fsm.halt = true → Heard (i m) c.command.code → m < n →
      (∀ x, m < x → x < n → (run clkPerBit u i x).fsm.state ≠ .cmdIdle) →
      (run clkPerBit u i n).fsm.halt = true) ∧
    (∀ w : WriteMem, w.Received clkPerBit u i →
      (run clkPerBit u i (w.last + 1)).fsm.dbgMemWe = true ∧
      (run clkPerBit u i (w.last + 1)).fsm.memAddr = w.addr ∧
      (run clkPerBit u i (w.last + 1)).fsm.memWdata = w.data) ∧
    ∀ n, 0 < n → (run clkPerBit u i n).fsm.dbgMemWe = true →
      (∃! w : WriteMem, w.Received clkPerBit u i ∧ w.last + 1 = n) ∧
      (run clkPerBit u i (n + 1)).fsm.dbgMemWe = false := by
  refine ⟨?_, ?_, fun w received => pulse_of_received fits received, ?_⟩
  · intro n pos valid
    obtain ⟨n, rfl⟩ := Nat.exists_eq_add_of_le' pos
    apply haltedAccess_run reset n
    rcases valid with mem | mmio
    · exact DebugRegs.inAccess_of_dbgMemValid mem
    · exact DebugRegs.inAccess_of_dbgMmioValid mmio
  · intro m n c idle halt byte after busy
    exact (engaged_run idle halt byte after busy).halt
  · intro n pos pulse
    obtain ⟨n, rfl⟩ := Nat.exists_eq_add_of_le' pos
    constructor
    · obtain ⟨w, received, now⟩ := received_of_pulse fits reset pulse
      refine ⟨w, ⟨received, congrArg (· + 1) now⟩, ?_⟩
      rintro v ⟨also, same⟩
      exact received_unique fits also received (by omega)
    · have state : (run clkPerBit u i (n + 1)).fsm.state = .memWritePulse := by
        simpa [DebugRegs.dbgMemWe] using pulse
      by_cases rst : (i (n + 1)).rst = true
      · simp [trajectory_succ, DbgUart.posedge, rst, DebugRegs.reset, DebugRegs.dbgMemWe]
      · rw [fsm_succ (Bool.eq_false_iff.mpr rst)]
        simp [DebugRegs.advance, state, DebugRegs.dbgMemWe]

/-- A WRITE_MEM that stops after two bytes of its address, and a whole one after the timeout. -/
def abortedThenWhole (n : ℕ) : DebugIn where
  rst := n == 0
  rxDone := (1 ≤ n && n ≤ 3) || (40 ≤ n && n ≤ 48)
  rxData :=
    if n ≤ 3 then [0x00, 0x07, 0x11, 0x22].getD n 0
    else [0x07, 0x10, 0x20, 0x00, 0x00, 0xEF, 0xBE, 0xAD, 0xDE].getD (n - 40) 0
  dbgRegData := 0
  pcDbg := 0
  dbgCsrData := 0
  dbgMemRdata := 0
  dbgMmioRdata := 0

def unpowered : DbgUart where
  fsm := .reset 0
  tx := idleTx

theorem pulses_are_received_aborted :
    (∃! w : WriteMem, w.Received 1 unpowered abortedThenWhole ∧ w.last + 1 = 49) ∧
      (run 1 unpowered abortedThenWhole 50).fsm.dbgMemWe = false :=
  (pulses_are_received 1 (by decide) unpowered abortedThenWhole rfl).2.2.2 49 (by decide)
    (by decide +kernel)

end Halted

end RiscvSoc.Peripherals.DebugWrite
