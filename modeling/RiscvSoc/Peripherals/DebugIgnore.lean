/- GID: RiscvSoc/Peripherals/DebugIgnore
   generality: G
   utility: main
   digest: An access command that comes to a running core: its arguments are read as commands. -/

import RiscvSoc.Peripherals.DebugWrite

set_option autoImplicit false
set_option relaxedAutoImplicit false

namespace RiscvSoc.Peripherals.DebugIgnore

open RiscvSoc.Clocked.Trajectory
open RiscvSoc.Cpu.Decoder
open RiscvSoc.Memory.ByteLanes
open RiscvSoc.Peripherals.Uart
open RiscvSoc.Peripherals.DebugUart
open RiscvSoc.Peripherals.DebugReply
open RiscvSoc.Peripherals.DebugReceive
open RiscvSoc.Peripherals.DebugWrite

/-- The commands that a running core does not ignore. RESUME finds it running. -/
def heeded : List Command := [.halt, .step, .readReg, .readPc, .readAll, .readCsr]

/-- A byte that leaves the FSM of a running core in `CMD_IDLE`. -/
def Harmless (b : Byte) : Prop := ∀ c ∈ heeded, b ≠ c.code

instance (b : Byte) : Decidable (Harmless b) := inferInstanceAs (Decidable (∀ c ∈ heeded, _))

section Registers

/-- Waiting for a command, with the core running and nothing to send. -/
structure Calm (r : DebugRegs) : Prop where
  state : r.state = .cmdIdle
  halt : r.halt = false
  txEn : r.txEn = false

def replies (r : DebugRegs) : Bool :=
  match r.state with
  | .waitArg | .waitArgCsr | .sendLoad | .sendByteStart => true
  | _ => false

variable {r : DebugRegs} {b : Byte} {clkPerBit : ℕ} {txBusy : Bool} {j : DebugIn}

private theorem calm_quiet (calm : Calm r) (quiet : j.rxDone = false) :
    Calm (r.advance clkPerBit txBusy j) := by
  rw [idle_quiet clkPerBit txBusy calm.state quiet]
  exact ⟨calm.state, calm.halt, rfl⟩

private theorem calm_byte (calm : Calm r) (done : j.rxDone = true) (harmless : Harmless j.rxData) :
    Calm (r.advance clkPerBit txBusy j) := by
  cases command : Command.ofByte j.rxData with
  | none =>
    have stays : r.advance clkPerBit txBusy j = counted r := by
      simp [DebugRegs.advance, calm.state, done, command, counted]
    rw [stays]
    exact ⟨calm.state, calm.halt, rfl⟩
  | some c =>
    have code := code_of_ofByte command
    rw [idle_byte clkPerBit txBusy calm.state done code]
    have notHeeded : c ∉ heeded := fun mem => harmless c mem code
    have halt : (counted r).halt = false := calm.halt
    cases c with
    | resume => exact ⟨calm.state, rfl, rfl⟩
    | writeMem | readMem | readMmio =>
      simp only [DebugRegs.command, halt, Bool.false_eq_true, if_false]
      exact ⟨calm.state, halt, rfl⟩
    | halt | step | readReg | readPc | readAll | readCsr => simp [heeded] at notHeeded

private theorem heeded_byte (calm : Calm r) (done : j.rxDone = true)
    (harmful : ¬Harmless j.rxData) :
    (r.advance clkPerBit txBusy j).halt = true ∨
      (r.advance clkPerBit txBusy j).state = .stepAssert ∨
      replies (r.advance clkPerBit txBusy j) = true := by
  obtain ⟨c, mem, code⟩ : ∃ c ∈ heeded, j.rxData = c.code := by
    by_contra none
    exact harmful fun c mem code => none ⟨c, mem, code⟩
  rw [idle_byte clkPerBit txBusy calm.state done code]
  simp only [heeded, List.mem_cons, List.not_mem_nil, or_false] at mem
  rcases mem with rfl | rfl | rfl | rfl | rfl | rfl
  · exact Or.inl rfl
  · exact Or.inr (Or.inl rfl)
  all_goals exact Or.inr (Or.inr rfl)

private theorem replies_advance (here : replies r = true)
    (inTime : r.awaits = true → j.rxDone = false → r.timedOut clkPerBit = false) :
    replies (r.advance clkPerBit txBusy j) = true ∨
      (r.advance clkPerBit txBusy j).txEn = true := by
  cases state : r.state <;> simp [replies, state] at here
  case waitArg | waitArgCsr =>
    left
    have awaits : r.awaits = true := by simp [DebugRegs.awaits, state]
    cases done : j.rxDone with
    | true =>
      rw [awaits_byte clkPerBit txBusy awaits done]
      simp only [DebugRegs.argument, counted, state]
      repeat' split
      all_goals simp [replies]
    | false =>
      rw [awaits_quiet txBusy awaits done (inTime awaits done)]
      simp [replies, counted, state]
  case sendLoad =>
    left
    simp [DebugRegs.advance, state, replies]
  case sendByteStart =>
    cases txBusy with
    | true => left; simp [DebugRegs.advance, state, replies]
    | false => right; simp [DebugRegs.advance, state]

end Registers

section Runs

/-- A whole access command: silence from clock `n` to its opcode in clock `first`, and then its
arguments, each before the timeout of the byte before it. -/
structure Receives (clkPerBit : ℕ) (i : ℕ → DebugIn) (n : ℕ) (c : Access) (addr data : Word)
    (first last : ℕ) : Prop where
  start : n ≤ first
  silent : ∀ x, n ≤ x → x < first → Quiet (i x)
  opcode : Heard (i first) c.command.code
  follow : Consecutive clkPerBit i first (c.arguments addr data) last

instance (clkPerBit : ℕ) (i : ℕ → DebugIn) (n : ℕ) (c : Access) (addr data : Word)
    (first last : ℕ) : Decidable (Receives clkPerBit i n c addr data first last) :=
  decidable_of_iff (n ≤ first ∧ (∀ x < first, n ≤ x → Quiet (i x)) ∧
      Heard (i first) c.command.code ∧
      Consecutive clkPerBit i first (c.arguments addr data) last)
    ⟨fun ⟨start, silent, opcode, follow⟩ =>
        ⟨start, fun x lo hi => silent x hi lo, opcode, follow⟩,
      fun receives => ⟨receives.start, fun x hi lo => receives.silent x lo hi, receives.opcode,
        receives.follow⟩⟩

/-- From clock `n` until its last byte is taken the core runs on, nothing is written or stepped,
no reply byte is given to the transmitter; and then the next command is awaited. -/
structure Ignored (clkPerBit : ℕ) (u : DbgUart) (i : ℕ → DebugIn) (n last : ℕ) : Prop where
  halt : ∀ x, n ≤ x → x ≤ last + 1 → (run clkPerBit u i x).fsm.halt = false
  noWrite : ∀ x, n ≤ x → x ≤ last + 1 → (run clkPerBit u i x).fsm.dbgMemWe = false
  noStep : ∀ x, n ≤ x → x ≤ last + 1 → (run clkPerBit u i x).fsm.state ≠ .stepAssert
  noReply : ∀ x, n ≤ x → x ≤ last + 1 → (run clkPerBit u i x).fsm.txEn = false
  idle : (run clkPerBit u i (last + 1)).fsm.state = .cmdIdle

variable {clkPerBit : ℕ} {u : DbgUart} {i : ℕ → DebugIn} {m n k last : ℕ} {bs : List Byte}
  {b : Byte} {c : Access} {addr data : Word} {first : ℕ}

private theorem calm_wait (calm : Calm (run clkPerBit u i m).fsm) (le : m ≤ k)
    (silent : ∀ x, m ≤ x → x < k → Quiet (i x)) : Calm (run clkPerBit u i k).fsm := by
  induction k, le using Nat.le_induction with
  | base => exact calm
  | succ k le ih =>
    have quiet := silent k le (by omega)
    rw [fsm_succ quiet.1]
    exact calm_quiet (ih fun x lo hi => silent x lo (by omega)) (heard_none quiet.2)

private theorem calm_heard (calm : Calm (run clkPerBit u i n).fsm) (byte : Heard (i n) b)
    (harmless : Harmless b) : Calm (run clkPerBit u i (n + 1)).fsm := by
  obtain ⟨done, rfl⟩ := heard_some byte.2
  rw [fsm_succ byte.1]
  exact calm_byte calm done harmless

private theorem heeded_run (calm : Calm (run clkPerBit u i n).fsm) (byte : Heard (i n) b)
    (harmful : ¬Harmless b) :
    (run clkPerBit u i (n + 1)).fsm.halt = true ∨
      (run clkPerBit u i (n + 1)).fsm.state = .stepAssert ∨
      replies (run clkPerBit u i (n + 1)).fsm = true := by
  obtain ⟨done, rfl⟩ := heard_some byte.2
  rw [fsm_succ byte.1]
  exact heeded_byte calm done harmful

private theorem calm_consecutive (calm : Calm (run clkPerBit u i (m + 1)).fsm)
    (harmless : ∀ b ∈ bs, Harmless b) (follow : Consecutive clkPerBit i m bs last)
    (after : m < k) (le : k ≤ last + 1) : Calm (run clkPerBit u i k).fsm := by
  induction bs generalizing m with
  | nil =>
    obtain rfl : last = m := follow
    obtain rfl : k = last + 1 := by omega
    exact calm
  | cons b bs ih =>
    obtain ⟨x, later, -, silent, byte, rest⟩ := follow
    by_cases early : k ≤ x
    · exact calm_wait calm after fun y lo hi => silent y lo (by omega)
    · have before := calm_wait calm later silent
      have next := calm_heard before byte (harmless b List.mem_cons_self)
      exact ih next (fun d mem => harmless d (List.mem_cons_of_mem b mem)) rest (by omega)

/-- On the way to a reply in clock `n`, with the timeout counted from the byte of clock `m`. -/
structure Replying (clkPerBit : ℕ) (u : DbgUart) (i : ℕ → DebugIn) (m n : ℕ) : Prop where
  later : m < n
  replies : replies (run clkPerBit u i n).fsm = true
  timer : (run clkPerBit u i n).fsm.awaits = true →
    (run clkPerBit u i n).fsm.rxTimeoutCnt.toNat = n - (m + 1)

private theorem awaits_of_advance {r : DebugRegs} {txBusy : Bool} {j : DebugIn}
    (here : replies r = true) (next : (r.advance clkPerBit txBusy j).awaits = true) :
    r.awaits = true := by
  cases state : r.state <;> simp [replies, state] at here
  case waitArg | waitArgCsr => simp [DebugRegs.awaits, state]
  case sendLoad => simp [DebugRegs.advance, state, DebugRegs.awaits] at next
  case sendByteStart =>
    cases txBusy <;> simp [DebugRegs.advance, state, DebugRegs.awaits] at next

private theorem replies_run (there : replies (run clkPerBit u i n).fsm = true)
    (noRst : (i n).rst = false)
    (inTime : (run clkPerBit u i n).fsm.awaits = true → (i n).rxDone = false →
      (run clkPerBit u i n).fsm.timedOut clkPerBit = false) :
    replies (run clkPerBit u i (n + 1)).fsm = true ∨
      (run clkPerBit u i (n + 1)).fsm.txEn = true := by
  rw [fsm_succ noRst]
  exact replies_advance there inTime

private theorem replying_quiet (fits : clkPerBit < 2 ^ 16) (here : Replying clkPerBit u i m n)
    (quiet : Quiet (i n)) (early : n ≤ m + clkPerBit * timeoutBitPeriods) :
    Replying clkPerBit u i m (n + 1) ∨ (run clkPerBit u i (n + 1)).fsm.txEn = true := by
  obtain ⟨later, there, timer⟩ := here
  simp only [timeoutBitPeriods] at early
  have inTime : (run clkPerBit u i n).fsm.awaits = true →
      (run clkPerBit u i n).fsm.timedOut clkPerBit = false := by
    intro awaits
    simp only [DebugRegs.timedOut, timer awaits, decide_eq_false_iff_not, not_le,
      timeoutBitPeriods]
    omega
  refine (replies_run there quiet.1 fun awaits _ => inTime awaits).imp
    (fun replies => ⟨by omega, replies, ?_⟩) id
  intro awaits
  have before : (run clkPerBit u i n).fsm.awaits = true := by
    rw [fsm_succ quiet.1] at awaits
    exact awaits_of_advance there awaits
  rw [fsm_succ quiet.1, awaits_quiet _ before (heard_none quiet.2) (inTime before)]
  change ((run clkPerBit u i n).fsm.rxTimeoutCnt + 1).toNat = n + 1 - (m + 1)
  rw [BitVec.toNat_add, timer before]
  simp
  omega

private theorem replying_byte (here : Replying clkPerBit u i m n) (byte : Heard (i n) b) :
    Replying clkPerBit u i n (n + 1) ∨ (run clkPerBit u i (n + 1)).fsm.txEn = true := by
  obtain ⟨later, there, timer⟩ := here
  obtain ⟨done, -⟩ := heard_some byte.2
  have next := replies_run there byte.1 fun _ quiet => absurd (done.symm.trans quiet) (by decide)
  refine next.imp (fun replies => ⟨by omega, replies, ?_⟩) id
  intro awaits
  rw [fsm_succ byte.1] at awaits ⊢
  have before := awaits_of_advance there awaits
  rw [awaits_byte _ _ before done] at awaits ⊢
  rw [timeout_argument (r := counted (run clkPerBit u i n).fsm) before awaits]
  simp

private theorem replying_wait (fits : clkPerBit < 2 ^ 16) (here : Replying clkPerBit u i m (m + 1))
    (after : m < k) (timely : k ≤ m + clkPerBit * timeoutBitPeriods + 1)
    (silent : ∀ x, m < x → x < k → Quiet (i x)) :
    Replying clkPerBit u i m k ∨ ∃ x, m < x ∧ x ≤ k ∧ (run clkPerBit u i x).fsm.txEn = true := by
  induction k, after using Nat.le_induction with
  | base => exact Or.inl here
  | succ k after ih =>
    rcases ih (by omega) fun x lo hi => silent x lo (by omega) with before | ⟨x, lo, hi, strobe⟩
    · rcases replying_quiet fits before (silent k after (by omega)) (by omega) with next | strobe
      · exact Or.inl next
      · exact Or.inr ⟨k + 1, by omega, le_rfl, strobe⟩
    · exact Or.inr ⟨x, lo, by omega, strobe⟩

/-- Once on the way to a reply, the FSM is there still when the command is over, or it has
strobed the transmitter. -/
private theorem replying_consecutive (fits : clkPerBit < 2 ^ 16)
    (here : Replying clkPerBit u i m (m + 1)) (follow : Consecutive clkPerBit i m bs last) :
    Replying clkPerBit u i last (last + 1) ∨
      ∃ x, m < x ∧ x ≤ last + 1 ∧ (run clkPerBit u i x).fsm.txEn = true := by
  induction bs generalizing m with
  | nil =>
    obtain rfl : last = m := follow
    exact Or.inl here
  | cons b bs ih =>
    obtain ⟨k, later, timely, silent, byte, rest⟩ := follow
    have before := le_of_consecutive rest
    rcases replying_wait fits here later timely silent with wait | ⟨x, lo, hi, strobe⟩
    · rcases replying_byte wait byte with next | strobe
      · refine (ih next rest).imp id ?_
        rintro ⟨x, lo, hi, strobe⟩
        exact ⟨x, by omega, hi, strobe⟩
      · exact Or.inr ⟨k + 1, by omega, by omega, strobe⟩
    · exact Or.inr ⟨x, lo, by omega, strobe⟩

private theorem timeout_idle (idle : (run clkPerBit u i n).fsm.state = .cmdIdle)
    (byte : Heard (i n) b)
    (awaits : (run clkPerBit u i (n + 1)).fsm.awaits = true) :
    (run clkPerBit u i (n + 1)).fsm.rxTimeoutCnt = 0 := by
  obtain ⟨done, rfl⟩ := heard_some byte.2
  rw [fsm_succ byte.1] at awaits ⊢
  cases command : Command.ofByte (i n).rxData with
  | none => simp [DebugRegs.advance, idle, done, command, DebugRegs.awaits] at awaits
  | some c =>
    rw [idle_byte _ _ idle done (code_of_ofByte command)] at awaits ⊢
    exact timeout_command (r := counted (run clkPerBit u i n).fsm) idle awaits

private theorem not_ignored_consecutive (fits : clkPerBit < 2 ^ 16) (le : n ≤ m)
    (calm : Calm (run clkPerBit u i (m + 1)).fsm) (harmful : ∃ b ∈ bs, ¬Harmless b)
    (follow : Consecutive clkPerBit i m bs last) : ¬Ignored clkPerBit u i n last := by
  intro ignored
  induction bs generalizing m with
  | nil => simp at harmful
  | cons b bs ih =>
    obtain ⟨k, later, -, silent, byte, rest⟩ := follow
    have before := calm_wait calm later silent
    have inside := le_of_consecutive rest
    by_cases harmless : Harmless b
    · refine ih (by omega) (calm_heard before byte harmless) ?_ rest
      obtain ⟨d, mem, bad⟩ := harmful
      rcases List.mem_cons.mp mem with rfl | tail
      · exact absurd harmless bad
      · exact ⟨d, tail, bad⟩
    · rcases heeded_run before byte harmless with halted | stepped | replies
      · exact absurd (halted.symm.trans (ignored.halt (k + 1) (by omega) (by omega))) (by decide)
      · exact ignored.noStep (k + 1) (by omega) (by omega) stepped
      · have start : Replying clkPerBit u i k (k + 1) := by
          refine ⟨by omega, replies, ?_⟩
          intro awaits
          rw [timeout_idle before.state byte awaits]
          simp
        rcases replying_consecutive fits start rest with there | ⟨x, lo, hi, strobe⟩
        · have state := there.replies
          simp [DebugIgnore.replies, ignored.idle] at state
        · exact absurd (strobe.symm.trans (ignored.noReply x (by omega) hi)) (by decide)

private theorem txEn_of_idle (idle : (run clkPerBit u i (n + 1)).fsm.state = .cmdIdle) :
    (run clkPerBit u i (n + 1)).fsm.txEn = false := by
  by_cases rst : (i n).rst = true
  · simp [trajectory_succ, DbgUart.posedge, rst, DebugRegs.reset]
  · rw [Bool.eq_false_iff]
    intro strobe
    rw [fsm_succ (Bool.eq_false_iff.mpr rst)] at strobe idle
    have busy := txEn_advance strobe
    simp [idle] at busy

/-- An access command to a running core is ignored if and only if the core would ignore every
byte of its arguments. -/
theorem ignored_iff_harmless (clkPerBit : ℕ) (fits : clkPerBit < 2 ^ 16) (u : DbgUart)
    (i : ℕ → DebugIn) (n : ℕ) (pos : 0 < n)
    (idle : (run clkPerBit u i n).fsm.state = .cmdIdle)
    (running : (run clkPerBit u i n).fsm.halt = false) (c : Access) (addr data : Word)
    (first last : ℕ) (receives : Receives clkPerBit i n c addr data first last) :
    Ignored clkPerBit u i n last ↔ ∀ b ∈ c.arguments addr data, Harmless b := by
  obtain ⟨start, silent, opcode, follow⟩ := receives
  obtain ⟨n, rfl⟩ := Nat.exists_eq_add_of_le' pos
  have calm : Calm (run clkPerBit u i (n + 1)).fsm := ⟨idle, running, txEn_of_idle idle⟩
  have ready := calm_wait calm start silent
  have quiet : Harmless c.command.code := by cases c <;> decide
  have taken := calm_heard ready opcode quiet
  constructor
  · intro ignored b mem
    by_contra harmful
    exact not_ignored_consecutive fits start taken ⟨b, mem, harmful⟩ follow ignored
  · intro harmless
    have throughout : ∀ x, n + 1 ≤ x → x ≤ last + 1 → Calm (run clkPerBit u i x).fsm := by
      intro x lo hi
      by_cases early : x ≤ first
      · exact calm_wait calm lo fun y ylo yhi => silent y ylo (by omega)
      · exact calm_consecutive taken harmless follow (by omega) hi
    have inside := le_of_consecutive follow
    constructor
    · exact fun x lo hi => (throughout x lo hi).halt
    · intro x lo hi
      simp [DebugRegs.dbgMemWe, (throughout x lo hi).state]
    · intro x lo hi
      simp [(throughout x lo hi).state]
    · exact fun x lo hi => (throughout x lo hi).txEn
    · exact (throughout (last + 1) (by omega) le_rfl).state

/-- After a reset and RESUME a READ_MEM comes in, a frame of eleven bit periods after the other. -/
def readStream (addr : Word) (n : ℕ) : DebugIn where
  rst := n == 0
  rxDone := n == 100 || (200 ≤ n && n ≤ 552 && (n - 200) % 88 == 0)
  rxData :=
    if n = 100 then Command.resume.code
    else (Command.readMem.code :: wordBytes addr).getD ((n - 200) / 88) 0
  dbgRegData := 0
  pcDbg := 0
  dbgCsrData := 0
  dbgMemRdata := 0
  dbgMmioRdata := 0

/-- The low byte of this address is HALT. -/
theorem readMem_halts_running_core :
    (run 8 unpowered (readStream 0x2001) 101).fsm.state = .cmdIdle ∧
      (run 8 unpowered (readStream 0x2001) 101).fsm.halt = false ∧
      Receives 8 (readStream 0x2001) 101 .readMem 0x2001 0 200 552 ∧
      ¬Ignored 8 unpowered (readStream 0x2001) 101 552 := by
  refine ⟨by decide +kernel, by decide +kernel, by decide +kernel, ?_⟩
  intro ignored
  have halted : (run 8 unpowered (readStream 0x2001) 289).fsm.halt = true := by decide +kernel
  exact absurd (halted.symm.trans (ignored.halt 289 (by decide) (by decide))) (by decide)

theorem ignored_iff_harmless_readMem :
    Ignored 8 unpowered (readStream 0x2000) 101 552 ↔
      ∀ b ∈ Access.readMem.arguments 0x2000 0, Harmless b :=
  ignored_iff_harmless 8 (by decide) unpowered (readStream 0x2000) 101 (by decide)
    (by decide +kernel) (by decide +kernel) .readMem 0x2000 0 200 552 (by decide +kernel)

end Runs

end RiscvSoc.Peripherals.DebugIgnore
