/- GID: RiscvSoc/Peripherals/DebugStep
   generality: G
   utility: support
   digest: STEP on the debug UART: halt drops for one clock, in a session of other commands. -/

import RiscvSoc.Peripherals.DebugExchange

set_option autoImplicit false
set_option relaxedAutoImplicit false

namespace RiscvSoc.Peripherals.DebugStep

open RiscvSoc.Clocked.Trajectory
open RiscvSoc.Memory.ByteLanes
open RiscvSoc.Peripherals.DebugUart
open RiscvSoc.Peripherals.DebugReply
open RiscvSoc.Peripherals.DebugReceive
open RiscvSoc.Peripherals.DebugRequest
open RiscvSoc.Peripherals.DebugExchange

section Orders

/-- A command of a stepping session. -/
inductive Order where
  | step
  | request (q : Request)
  deriving DecidableEq

namespace Order

def command : Order → Command
  | step => .step
  | request q => q.command

def args : Order → List Byte
  | step => []
  | request q => q.args

def words : Order → ℕ
  | step => 0
  | request q => q.words

end Order

/-- A command, the clocks in which its first and its last byte arrive, and the clock from which
the host goes on. -/
structure Entry where
  order : Order
  first : ℕ
  last : ℕ
  stop : ℕ

/-- The commands arrive one after the other, each at least a frame after the one before. -/
def Paced (clkPerBit : ℕ) (line : ℕ → Option Byte) : ℕ → List Entry → Prop
  | _, [] => True
  | n, e :: es =>
    Arrive clkPerBit line n e.order.command.code e.order.args e.first e.last ∧
      Silent line (e.last + 1) e.stop ∧
      e.last + clkPerBit * frameBitPeriods ≤ e.stop ∧
      Paced clkPerBit line e.stop es

/-- The host goes on once it has read the reply. -/
def RepliesRead (log : ℕ → List Byte) : ℕ → List Entry → Prop
  | _, [] => True
  | n, e :: es =>
    (log n).length + 4 * e.order.words ≤ (log (e.stop - 1)).length ∧
      RepliesRead log e.stop es

instance decidablePaced (clkPerBit : ℕ) (line : ℕ → Option Byte) :
    ∀ (n : ℕ) (es : List Entry), Decidable (Paced clkPerBit line n es)
  | _, [] => inferInstanceAs (Decidable True)
  | _, e :: es =>
    have := decidablePaced clkPerBit line e.stop es
    inferInstanceAs (Decidable (_ ∧ _ ∧ _ ∧ _))

instance decidableRepliesRead (log : ℕ → List Byte) :
    ∀ (n : ℕ) (es : List Entry), Decidable (RepliesRead log n es)
  | _, [] => inferInstanceAs (Decidable True)
  | _, e :: es =>
    have := decidableRepliesRead log e.stop es
    inferInstanceAs (Decidable (_ ∧ _))

/-- The clock in which the session is over. -/
def ending : ℕ → List Entry → ℕ
  | n, [] => n
  | _, e :: es => ending e.stop es

/-- The number of STEP commands. -/
def steps (es : List Entry) : ℕ := (es.map Entry.order).count .step

theorem le_ending {clkPerBit : ℕ} {line : ℕ → Option Byte} {n : ℕ} {es : List Entry}
    (paced : Paced clkPerBit line n es) : n ≤ ending n es := by
  induction es generalizing n with
  | nil => exact le_rfl
  | cons e es ih =>
    obtain ⟨arrive, -, frame, rest⟩ := paced
    have later : e.stop ≤ ending e.stop es := ih rest
    have order := le_of_follow arrive.follow
    have start := arrive.start
    simp only [ending]
    omega

end Orders

section Step

variable {clkPerBit : ℕ} {u : DbgUart} {i : ℕ → DebugIn} {r : DebugRegs} {n first last stop : ℕ}

private theorem settled_stepAssert (noRst : ∀ n, (i n).rst = false)
    (here : Settled r (run clkPerBit u i n))
    (state : r.state = .stepAssert) :
    Settled { r with halt := false, state := .stepDeassert } (run clkPerBit u i (n + 1)) := by
  have asserts := (state_of_settled here).trans state
  have edge : (run clkPerBit u i n).fsm.advance clkPerBit (run clkPerBit u i n).tx.busy (i n) =
      { counted (run clkPerBit u i n).fsm with halt := false, state := .stepDeassert } := by
    simp only [DebugRegs.advance, asserts]
    rfl
  refine (settled_succ noRst here (by rw [edge]; rfl) ?_).1
  rw [edge]
  exact congrArg (fun r : DebugRegs => { r with halt := false, state := .stepDeassert }) here.fsm

private theorem settled_stepDeassert (noRst : ∀ n, (i n).rst = false)
    (here : Settled r (run clkPerBit u i n)) (state : r.state = .stepDeassert) :
    Settled { r with halt := true, state := .cmdIdle } (run clkPerBit u i (n + 1)) := by
  have deasserts := (state_of_settled here).trans state
  have edge : (run clkPerBit u i n).fsm.advance clkPerBit (run clkPerBit u i n).tx.busy (i n) =
      { counted (run clkPerBit u i n).fsm with halt := true, state := .cmdIdle } := by
    simp only [DebugRegs.advance, deasserts]
    rfl
  refine (settled_succ noRst here (by rw [edge]; rfl) ?_).1
  rw [edge]
  exact congrArg (fun r : DebugRegs => { r with halt := true, state := .cmdIdle }) here.fsm

/-- What the debug UART does from clock `n` to clock `stop` with a STEP that arrives in clock
`first`: it leaves memory to the core and drops halt in one clock. -/
structure Stepped (clkPerBit : ℕ) (u : DbgUart) (i : ℕ → DebugIn) (n first stop : ℕ) : Prop where
  start : n ≤ first
  frame : first + 3 ≤ stop
  halt : ∀ k, n ≤ k → k ≤ stop → k ≠ first + 2 → (run clkPerBit u i k).fsm.halt = true
  drop : (run clkPerBit u i (first + 2)).fsm.halt = false
  port : ∀ k, n ≤ k → k ≤ stop → (run clkPerBit u i k).fsm.dbgMemValid = false
  idle : Idle (run clkPerBit u i stop)

theorem stepped_arrive (pos : 0 < clkPerBit) (fits : clkPerBit < 2 ^ 16)
    (noRst : ∀ n, (i n).rst = false) (idle : Idle (run clkPerBit u i n))
    (arrive : Arrive clkPerBit (fun x => heard (i x)) n Command.step.code [] first last)
    (silent : Silent (fun x => heard (i x)) (last + 1) stop)
    (frame : last + clkPerBit * frameBitPeriods ≤ stop) :
    Stepped clkPerBit u i n first stop := by
  have bits : 10 ≤ clkPerBit * frameBitPeriods := Nat.le_mul_of_pos_left _ pos
  obtain rfl : last = first := arrive.follow
  have start := arrive.start
  have none : AwaitsAll ((run clkPerBit u i n).fsm.command .step) [] := trivial
  obtain ⟨assert, -, before, -⟩ := settled_arrive pos fits noRst
    ⟨rfl, idle.txEn, idle.ready⟩ idle.state none arrive
  have stateA : (run clkPerBit u i (last + 1)).fsm.state = .stepAssert := state_of_settled assert
  have haltA : (run clkPerBit u i (last + 1)).fsm.halt = true :=
    (halt_of_settled assert).trans idle.halt
  have deassert := settled_stepAssert noRst assert rfl
  have stateD : (run clkPerBit u i (last + 2)).fsm.state = .stepDeassert :=
    state_of_settled deassert
  have drop : (run clkPerBit u i (last + 2)).fsm.halt = false := halt_of_settled deassert
  have done := settled_stepDeassert noRst deassert rfl
  have rest : ∀ k, last + 3 ≤ k → k ≤ stop → Idle (run clkPerBit u i k) := by
    intro k lo hi
    obtain ⟨j, rfl⟩ := Nat.exists_eq_add_of_le lo
    obtain ⟨still, -⟩ := idle_silent noRst done rfl j fun x xlo xhi =>
      silent x (by omega) (by omega)
    exact idle_of_settled still rfl rfl
  have early : ∀ k, n ≤ k → k ≤ last → (run clkPerBit u i k).fsm.state = .cmdIdle ∧
      (run clkPerBit u i k).fsm.halt = true := by
    intro k lo hi
    obtain ⟨state, halt⟩ := before k lo hi
    exact ⟨state, halt.trans idle.halt⟩
  have clocks : ∀ k, k ≤ last ∨ k = last + 1 ∨ k = last + 2 ∨ last + 3 ≤ k := by omega
  refine ⟨start, by omega, ?_, drop, ?_, rest stop (by omega) le_rfl⟩
  · intro k lo hi other
    rcases clocks k with sooner | rfl | rfl | later
    · exact (early k lo sooner).2
    · exact haltA
    · exact absurd rfl other
    · exact (rest k later hi).halt
  · intro k lo hi
    rcases clocks k with sooner | rfl | rfl | later
    · simp [DebugRegs.dbgMemValid, (early k lo sooner).1]
    · simp [DebugRegs.dbgMemValid, stateA]
    · simp [DebugRegs.dbgMemValid, stateD]
    · simp [DebugRegs.dbgMemValid, (rest k later hi).state]

end Step

end RiscvSoc.Peripherals.DebugStep
