/- GID: RiscvSoc/Peripherals/DebugReceive
   generality: G
   utility: support
   digest: The debug UART taking in a command byte and its argument bytes. -/

import RiscvSoc.Peripherals.DebugReply

set_option autoImplicit false
set_option relaxedAutoImplicit false

namespace RiscvSoc.Peripherals.DebugReceive

open RiscvSoc.Clocked.Trajectory
open RiscvSoc.Memory.ByteLanes
open RiscvSoc.Peripherals.Uart
open RiscvSoc.Peripherals.TxFrame
open RiscvSoc.Peripherals.DebugUart
open RiscvSoc.Peripherals.DebugReply

section Line

/-- The bit periods of a frame with one stop bit, the least a byte takes on the line. -/
def frameBitPeriods : ℕ := 10

/-- No byte arrives from clock `a` on and before clock `b`. -/
def Silent (line : ℕ → Option Byte) (a b : ℕ) : Prop := ∀ k, a ≤ k → k < b → line k = none

/-- After the byte of clock `m` the bytes `bs` arrive, each a frame or more and less than the
timeout after the one before it, the last one in clock `last`. -/
def Follow (clkPerBit : ℕ) (line : ℕ → Option Byte) : ℕ → List Byte → ℕ → Prop
  | m, [], last => last = m
  | m, b :: bs, last => ∃ k, m + clkPerBit * frameBitPeriods ≤ k ∧
      k < m + clkPerBit * timeoutBitPeriods ∧ Silent line (m + 1) k ∧ line k = some b ∧
      Follow clkPerBit line k bs last

instance (line : ℕ → Option Byte) (a b : ℕ) : Decidable (Silent line a b) :=
  decidable_of_iff (∀ k < b, a ≤ k → line k = none)
    ⟨fun all k lo hi => all k hi lo, fun all k hi lo => all k lo hi⟩

instance decidableFollow (clkPerBit : ℕ) (line : ℕ → Option Byte) :
    ∀ (m : ℕ) (bs : List Byte) (last : ℕ), Decidable (Follow clkPerBit line m bs last)
  | m, [], last => inferInstanceAs (Decidable (last = m))
  | m, b :: bs, last =>
    have := fun k => decidableFollow clkPerBit line k bs last
    decidable_of_iff (∃ k < m + clkPerBit * timeoutBitPeriods,
        m + clkPerBit * frameBitPeriods ≤ k ∧ Silent line (m + 1) k ∧ line k = some b ∧
          Follow clkPerBit line k bs last)
      ⟨fun ⟨k, timely, gap, rest⟩ => ⟨k, gap, timely, rest⟩,
        fun ⟨k, gap, timely, rest⟩ => ⟨k, timely, gap, rest⟩⟩

theorem le_of_follow {clkPerBit : ℕ} {line : ℕ → Option Byte} {m last : ℕ} {bs : List Byte}
    (follow : Follow clkPerBit line m bs last) : m ≤ last := by
  induction bs generalizing m with
  | nil => exact Eq.ge follow
  | cons b bs ih =>
    obtain ⟨k, gap, -, -, -, rest⟩ := follow
    have := ih rest
    omega

/-- A command byte and its argument bytes: the first one arrives in clock `first`, in a silence
from clock `n` on, the others follow. -/
structure Arrive (clkPerBit : ℕ) (line : ℕ → Option Byte) (n : ℕ) (code : Byte)
    (args : List Byte) (first last : ℕ) : Prop where
  start : n ≤ first
  silent : Silent line n first
  code : line first = some code
  follow : Follow clkPerBit line first args last

instance (clkPerBit : ℕ) (line : ℕ → Option Byte) (n : ℕ) (code : Byte) (args : List Byte)
    (first last : ℕ) : Decidable (Arrive clkPerBit line n code args first last) :=
  decidable_of_iff (n ≤ first ∧ Silent line n first ∧ line first = some code ∧
      Follow clkPerBit line first args last)
    ⟨fun ⟨start, silent, code, follow⟩ => ⟨start, silent, code, follow⟩,
      fun arrive => ⟨arrive.start, arrive.silent, arrive.code, arrive.follow⟩⟩

end Line

section Registers

/-- The registers without the timeout counter and the transmit strobe. -/
def settled (r : DebugRegs) : DebugRegs := { r with rxTimeoutCnt := 0, txEn := false }

private theorem settled_argument (r : DebugRegs) (b : Byte) :
    settled (r.argument b) = (settled r).argument b := by
  cases state : r.state <;> simp only [DebugRegs.argument, settled, state] <;> split <;> rfl

private theorem settled_command (r : DebugRegs) (c : Command) :
    settled (r.command c) = (settled r).command c := by
  have halt : (settled r).halt = r.halt := rfl
  cases c <;> simp only [DebugRegs.command, halt]
  case writeMem | readMem | readMmio => split <;> rfl
  all_goals rfl

/-- Whoever awaits another byte after this one has restarted the timeout. -/
theorem timeout_argument {r : DebugRegs} {b : Byte} (before : r.awaits = true)
    (after : (r.argument b).awaits = true) : (r.argument b).rxTimeoutCnt = 0 := by
  revert after
  cases state : r.state <;> simp [DebugRegs.awaits, state] at before <;>
    simp only [DebugRegs.argument, state]
  case waitArg => simp [DebugRegs.awaits]
  all_goals split <;> exact fun _ => rfl

theorem timeout_command {r : DebugRegs} {c : Command} (idle : r.state = .cmdIdle)
    (after : (r.command c).awaits = true) : (r.command c).rxTimeoutCnt = 0 := by
  revert after
  cases c <;> simp only [DebugRegs.command]
  case readReg | readCsr => simp
  case writeMem | readMem | readMmio =>
    split
    · exact fun _ => rfl
    · simp [DebugRegs.awaits, idle]
  all_goals simp [DebugRegs.awaits, idle]

def AwaitsAll : DebugRegs → List Byte → Prop
  | _, [] => True
  | r, b :: bs => r.awaits = true ∧ AwaitsAll (r.argument b) bs

variable {r : DebugRegs} {i : DebugIn}

def counted (r : DebugRegs) : DebugRegs :=
  { r with txEn := false, rxTimeoutCnt := r.rxTimeoutCnt + 1 }

private theorem settled_counted (r : DebugRegs) : settled (counted r) = settled r := rfl

theorem awaits_byte (clkPerBit : ℕ) (txBusy : Bool) (awaits : r.awaits = true)
    (done : i.rxDone = true) :
    r.advance clkPerBit txBusy i = (counted r).argument i.rxData := by
  obtain ⟨state, _⟩ := r
  cases state <;> simp [DebugRegs.awaits] at awaits <;>
    simp only [DebugRegs.advance, done, if_true] <;> rfl

theorem awaits_quiet {clkPerBit : ℕ} (txBusy : Bool) (awaits : r.awaits = true)
    (quiet : i.rxDone = false) (timely : r.timedOut clkPerBit = false) :
    r.advance clkPerBit txBusy i = counted r := by
  obtain ⟨state, _⟩ := r
  cases state <;> simp [DebugRegs.awaits] at awaits <;>
    simp only [DebugRegs.advance, quiet, timely, if_false, Bool.false_eq_true] <;> rfl

theorem idle_quiet (clkPerBit : ℕ) (txBusy : Bool) (idle : r.state = .cmdIdle)
    (quiet : i.rxDone = false) :
    r.advance clkPerBit txBusy i = counted r := by
  obtain ⟨state, _⟩ := r
  obtain rfl : state = .cmdIdle := idle
  simp only [DebugRegs.advance, quiet, if_false, Bool.false_eq_true]
  rfl

theorem idle_byte (clkPerBit : ℕ) (txBusy : Bool) {c : Command} (idle : r.state = .cmdIdle)
    (done : i.rxDone = true) (code : i.rxData = c.code) :
    r.advance clkPerBit txBusy i = (counted r).command c := by
  obtain ⟨state, _⟩ := r
  obtain rfl : state = .cmdIdle := idle
  simp only [DebugRegs.advance, done, if_true, code, Command.ofByte_code]
  rfl

end Registers

section Runs

/-- The debug UART holds these registers and sends nothing. -/
structure Settled (r : DebugRegs) (v : DbgUart) : Prop where
  fsm : settled v.fsm = settled r
  txEn : v.fsm.txEn = false
  ready : Ready v.tx

/-- What the receiver shows in a clock. -/
def heard (i : DebugIn) : Option Byte := if i.rxDone then some i.rxData else none

theorem heard_none {i : DebugIn} (quiet : heard i = none) : i.rxDone = false := by
  cases done : i.rxDone <;> simp_all [heard]

theorem heard_some {i : DebugIn} {b : Byte} (byte : heard i = some b) :
    i.rxDone = true ∧ i.rxData = b := by
  cases done : i.rxDone <;> simp_all [heard]

variable {clkPerBit : ℕ} {u : DbgUart} {i : ℕ → DebugIn} {r : DebugRegs} {m n : ℕ}

/-- A clock in which nothing is sent and the FSM moves to registers that hold no strobe. -/
theorem settled_succ (noRst : ∀ n, (i n).rst = false) (here : Settled r (run clkPerBit u i n))
    {q : DebugRegs} (txEn : ((run clkPerBit u i n).fsm.advance clkPerBit
      (run clkPerBit u i n).tx.busy (i n)).txEn = false)
    (next : settled ((run clkPerBit u i n).fsm.advance clkPerBit (run clkPerBit u i n).tx.busy
      (i n)) = settled q) :
    Settled q (run clkPerBit u i (n + 1)) ∧
      sent clkPerBit u i (n + 1) = sent clkPerBit u i n := by
  constructor
  · rw [run_succ clkPerBit u noRst, here.txEn]
    exact ⟨next, txEn, ready_idle _ _ _ here.ready⟩
  · rw [sent_succ, completed, if_neg (by simp [here.ready.state]), List.append_nil]

/-- An idle debug UART stays as it is while nothing arrives. -/
theorem idle_silent (noRst : ∀ n, (i n).rst = false) (here : Settled r (run clkPerBit u i n))
    (idle : r.state = .cmdIdle) (k : ℕ) (silent : Silent (fun x => heard (i x)) n (n + k)) :
    Settled r (run clkPerBit u i (n + k)) ∧
      sent clkPerBit u i (n + k) = sent clkPerBit u i n := by
  induction k with
  | zero => exact ⟨here, rfl⟩
  | succ k ih =>
    obtain ⟨before, log⟩ := ih fun x lo hi => silent x lo (by omega)
    have state : (run clkPerBit u i (n + k)).fsm.state = .cmdIdle :=
      (congrArg DebugRegs.state before.fsm).trans idle
    have step := idle_quiet clkPerBit (run clkPerBit u i (n + k)).tx.busy state
      (heard_none (silent (n + k) (by omega) (by omega)))
    obtain ⟨after, same⟩ := settled_succ (q := r) noRst before (by rw [step]; rfl)
      (by rw [step, settled_counted]; exact before.fsm)
    exact ⟨after, same.trans log⟩

private theorem awaits_of_settled {v : DbgUart} (here : Settled r v) : v.fsm.awaits = r.awaits :=
  (congrArg DebugRegs.awaits here.fsm :)

theorem state_of_settled {v : DbgUart} (here : Settled r v) : v.fsm.state = r.state :=
  (congrArg DebugRegs.state here.fsm :)

theorem halt_of_settled {v : DbgUart} (here : Settled r v) : v.fsm.halt = r.halt :=
  (congrArg DebugRegs.halt here.fsm :)

theorem mmioAddr_of_settled {v : DbgUart} (here : Settled r v) : v.fsm.mmioAddr = r.mmioAddr :=
  (congrArg DebugRegs.mmioAddr here.fsm :)

theorem memAddr_of_settled {v : DbgUart} (here : Settled r v) : v.fsm.memAddr = r.memAddr :=
  (congrArg DebugRegs.memAddr here.fsm :)

private theorem awaits_silent (fits : clkPerBit < 2 ^ 16) (noRst : ∀ n, (i n).rst = false)
    (here : Settled r (run clkPerBit u i n)) (start : (run clkPerBit u i n).fsm.rxTimeoutCnt = 0)
    (awaits : r.awaits = true) (k : ℕ) (timely : k ≤ clkPerBit * timeoutBitPeriods)
    (silent : Silent (fun x => heard (i x)) n (n + k)) :
    Settled r (run clkPerBit u i (n + k)) ∧
      (run clkPerBit u i (n + k)).fsm.rxTimeoutCnt = BitVec.ofNat 32 k ∧
      sent clkPerBit u i (n + k) = sent clkPerBit u i n := by
  induction k with
  | zero => exact ⟨here, start, rfl⟩
  | succ k ih =>
    obtain ⟨before, count, log⟩ := ih (by omega) fun x lo hi => silent x lo (by omega)
    have inTime : (run clkPerBit u i (n + k)).fsm.timedOut clkPerBit = false := by
      simp only [DebugRegs.timedOut, count, BitVec.toNat_ofNat, decide_eq_false_iff_not, not_le]
      simp only [timeoutBitPeriods] at timely ⊢
      omega
    have step := awaits_quiet (run clkPerBit u i (n + k)).tx.busy
      ((awaits_of_settled before).trans awaits)
      (heard_none (silent (n + k) (by omega) (by omega))) inTime
    obtain ⟨after, same⟩ := settled_succ (q := r) noRst before (by rw [step]; rfl)
      (by rw [step, settled_counted]; exact before.fsm)
    refine ⟨after, ?_, same.trans log⟩
    rw [← Nat.add_assoc, run_succ clkPerBit u noRst, step]
    exact (congrArg (· + 1) count).trans (BitVec.ofNat_add k 1).symm

private theorem awaits_heard (noRst : ∀ n, (i n).rst = false)
    (here : Settled r (run clkPerBit u i n))
    (awaits : r.awaits = true) {b : Byte} (byte : heard (i n) = some b) :
    Settled (r.argument b) (run clkPerBit u i (n + 1)) ∧
      ((r.argument b).awaits = true → (run clkPerBit u i (n + 1)).fsm.rxTimeoutCnt = 0) ∧
      sent clkPerBit u i (n + 1) = sent clkPerBit u i n := by
  obtain ⟨done, rfl⟩ := heard_some byte
  have waits := (awaits_of_settled here).trans awaits
  have step := awaits_byte clkPerBit (run clkPerBit u i n).tx.busy waits done
  have same : settled ((counted (run clkPerBit u i n).fsm).argument (i n).rxData) =
      settled (r.argument (i n).rxData) := by
    rw [settled_argument, settled_argument, settled_counted, here.fsm]
  have strobe : ((counted (run clkPerBit u i n).fsm).argument (i n).rxData).txEn = false :=
    DebugRegs.txEn_argument _ _
  obtain ⟨after, log⟩ := settled_succ noRst here (by rw [step]; exact strobe)
    ((congrArg settled step).trans same)
  refine ⟨after, ?_, log⟩
  intro more
  rw [run_succ clkPerBit u noRst, step]
  exact timeout_argument waits ((congrArg DebugRegs.awaits same).trans more)

private theorem settled_follow (pos : 0 < clkPerBit) (fits : clkPerBit < 2 ^ 16)
    (noRst : ∀ n, (i n).rst = false) {bs : List Byte} {last : ℕ}
    (here : Settled r (run clkPerBit u i (m + 1)))
    (start : r.awaits = true → (run clkPerBit u i (m + 1)).fsm.rxTimeoutCnt = 0)
    (all : AwaitsAll r bs) (follow : Follow clkPerBit (fun x => heard (i x)) m bs last) :
    Settled (bs.foldl DebugRegs.argument r) (run clkPerBit u i (last + 1)) ∧
      sent clkPerBit u i (last + 1) = sent clkPerBit u i (m + 1) ∧
      ∀ x, m < x → x ≤ last → (run clkPerBit u i x).fsm.awaits = true ∧
        (run clkPerBit u i x).fsm.halt = r.halt := by
  induction bs generalizing m r with
  | nil =>
    obtain rfl : last = m := follow
    refine ⟨here, rfl, ?_⟩
    intro x lo hi
    omega
  | cons b bs ih =>
    obtain ⟨k, gap, timely, silent, byte, rest⟩ := follow
    obtain ⟨awaits, others⟩ := all
    have later : m + 1 ≤ k := by
      have : 0 < clkPerBit * frameBitPeriods := Nat.mul_pos pos (by decide)
      omega
    have wait : ∀ x, m + 1 ≤ x → x ≤ k → Settled r (run clkPerBit u i x) ∧
        sent clkPerBit u i x = sent clkPerBit u i (m + 1) := by
      intro x lo hi
      obtain ⟨j, rfl⟩ : ∃ j, x = m + 1 + j := ⟨x - (m + 1), by omega⟩
      have quiet := awaits_silent fits noRst here (start awaits) awaits j (by omega)
        fun y ylo yhi => silent y ylo (by omega)
      exact ⟨quiet.1, quiet.2.2⟩
    obtain ⟨taken, restart, log⟩ := awaits_heard noRst (wait k later le_rfl).1 awaits byte
    obtain ⟨done, logRest, inside⟩ := ih taken restart others rest
    refine ⟨done, logRest.trans (log.trans (wait k later le_rfl).2), ?_⟩
    intro x lo hi
    by_cases early : x ≤ k
    · have still := (wait x lo early).1
      exact ⟨(awaits_of_settled still).trans awaits, halt_of_settled still⟩
    · obtain ⟨waits, halt⟩ := inside x (by omega) hi
      exact ⟨waits, halt.trans (DebugRegs.halt_argument r b)⟩

/-- An idle debug UART takes in a command with its arguments. -/
theorem settled_arrive (pos : 0 < clkPerBit) (fits : clkPerBit < 2 ^ 16)
    (noRst : ∀ n, (i n).rst = false) (here : Settled r (run clkPerBit u i n))
    (idle : r.state = .cmdIdle) {c : Command} {args : List Byte} {first last : ℕ}
    (all : AwaitsAll (r.command c) args)
    (arrive : Arrive clkPerBit (fun x => heard (i x)) n c.code args first last) :
    Settled (args.foldl DebugRegs.argument (r.command c)) (run clkPerBit u i (last + 1)) ∧
      sent clkPerBit u i (last + 1) = sent clkPerBit u i n ∧
      (∀ x, n ≤ x → x ≤ first → (run clkPerBit u i x).fsm.state = .cmdIdle ∧
        (run clkPerBit u i x).fsm.halt = r.halt) ∧
      ∀ x, first < x → x ≤ last → (run clkPerBit u i x).fsm.awaits = true ∧
        (run clkPerBit u i x).fsm.halt = (r.command c).halt := by
  obtain ⟨start, silent, code, follow⟩ := arrive
  have wait : ∀ x, n ≤ x → x ≤ first → Settled r (run clkPerBit u i x) ∧
      sent clkPerBit u i x = sent clkPerBit u i n := by
    intro x lo hi
    obtain ⟨j, rfl⟩ := Nat.exists_eq_add_of_le lo
    exact idle_silent noRst here idle j fun y ylo yhi => silent y ylo (by omega)
  have now := (wait first start le_rfl).1
  have state := (state_of_settled now).trans idle
  obtain ⟨done, data⟩ := heard_some code
  have step := idle_byte clkPerBit (run clkPerBit u i first).tx.busy state done data
  have same : settled ((counted (run clkPerBit u i first).fsm).command c) =
      settled (r.command c) := by
    rw [settled_command, settled_command, settled_counted, now.fsm]
  have strobe : ((counted (run clkPerBit u i first).fsm).command c).txEn = false :=
    DebugRegs.txEn_command _ _
  obtain ⟨taken, log⟩ := settled_succ noRst now (by rw [step]; exact strobe)
    ((congrArg settled step).trans same)
  have restart : (r.command c).awaits = true →
      (run clkPerBit u i (first + 1)).fsm.rxTimeoutCnt = 0 := by
    intro more
    rw [run_succ clkPerBit u noRst, step]
    exact timeout_command state ((congrArg DebugRegs.awaits same).trans more)
  obtain ⟨finish, logRest, inside⟩ := settled_follow pos fits noRst taken restart all follow
  refine ⟨finish, logRest.trans (log.trans (wait first start le_rfl).2), ?_, inside⟩
  intro x lo hi
  have still := (wait x lo hi).1
  exact ⟨(state_of_settled still).trans idle, halt_of_settled still⟩

end Runs

end RiscvSoc.Peripherals.DebugReceive
