/- GID: RiscvSoc/Peripherals/DebugExchange
   generality: G
   utility: support
   digest: One command and its reply, from an idle debug UART to an idle debug UART. -/

import RiscvSoc.Peripherals.DebugRequest

set_option autoImplicit false
set_option relaxedAutoImplicit false

namespace RiscvSoc.Peripherals.DebugExchange

open RiscvSoc.Clocked.Trajectory
open RiscvSoc.Memory.ByteLanes
open RiscvSoc.Peripherals.DebugUart
open RiscvSoc.Peripherals.DebugReply
open RiscvSoc.Peripherals.DebugReceive
open RiscvSoc.Peripherals.DebugRequest

/-- A command, the clocks in which its first and its last byte arrive, and the clock from which
the host goes on. -/
structure Exchange where
  request : Request
  first : ℕ
  last : ℕ
  stop : ℕ

/-- The host's end of a session from clock `n` on: the bytes of each command in time, and the
next command not before a frame has passed and the reply has been read. -/
def Session (clkPerBit : ℕ) (line : ℕ → Option Byte) (log : ℕ → List Byte) :
    ℕ → List Exchange → Prop
  | _, [] => True
  | n, e :: es =>
    Arrive clkPerBit line n e.request.command.code e.request.args e.first e.last ∧
      Silent line (e.last + 1) e.stop ∧
      e.last + clkPerBit * frameBitPeriods ≤ e.stop ∧
      (log n).length + 4 * e.request.words ≤ (log (e.stop - 1)).length ∧
      Session clkPerBit line log e.stop es

instance decidableSession (clkPerBit : ℕ) (line : ℕ → Option Byte) (log : ℕ → List Byte) :
    ∀ (n : ℕ) (es : List Exchange), Decidable (Session clkPerBit line log n es)
  | _, [] => inferInstanceAs (Decidable True)
  | _, e :: es =>
    have := decidableSession clkPerBit line log e.stop es
    inferInstanceAs (Decidable (_ ∧ _ ∧ _ ∧ _ ∧ _))

/-- The clock in which a session is over. -/
def finish : ℕ → List Exchange → ℕ
  | n, [] => n
  | _, e :: es => finish e.stop es

theorem le_finish {clkPerBit : ℕ} {line : ℕ → Option Byte} {log : ℕ → List Byte} {n : ℕ}
    {es : List Exchange} (session : Session clkPerBit line log n es) : n ≤ finish n es := by
  induction es generalizing n with
  | nil => exact le_rfl
  | cons e es ih =>
    obtain ⟨arrive, -, frame, -, rest⟩ := session
    have later : e.stop ≤ finish e.stop es := ih rest
    have order := le_of_follow arrive.follow
    have start := arrive.start
    simp only [finish]
    omega

variable {clkPerBit : ℕ} {u : DbgUart} {i : ℕ → DebugIn} {n : ℕ} {e : Exchange}

/-- What the debug UART does from clock `n` to the end of an exchange: it takes the command in,
sends the reply, and the core stays halted; memory is written in the clock after the last byte
of WRITE_MEM and in no other. -/
structure Handled (clkPerBit : ℕ) (u : DbgUart) (i : ℕ → DebugIn) (n : ℕ) (e : Exchange) :
    Prop where
  order : n ≤ e.first ∧ e.first ≤ e.last
  frame : e.last + 2 ≤ e.stop
  past : e.last + 1 + e.request.replyClocks clkPerBit ≤ e.stop
  first : (run clkPerBit u i e.first).fsm.state = .cmdIdle
  awaits : ∀ k, e.first < k → k ≤ e.last → (run clkPerBit u i k).fsm.awaits = true
  received : Settled (e.request.received (run clkPerBit u i n).fsm) (run clkPerBit u i (e.last + 1))
  halt : ∀ k, n ≤ k → k ≤ e.stop → (run clkPerBit u i k).fsm.halt = true
  early : ∀ k, n ≤ k → k ≤ e.last → (run clkPerBit u i k).fsm.dbgMemWe = false
  reads : (∀ addr data, e.request ≠ .writeMem addr data) →
    (run clkPerBit u i (e.last + 1)).fsm.dbgMemWe = false
  late : ∀ k, e.last + 1 < k → k ≤ e.stop → (run clkPerBit u i k).fsm.dbgMemWe = false
  idle : Idle (run clkPerBit u i e.stop)
  out : sent clkPerBit u i e.stop = sent clkPerBit u i n ++
    (e.request.latchedWords clkPerBit u i (e.last + 1)).flatMap wordBytes

theorem handled_exchange (pos : 0 < clkPerBit) (fits : clkPerBit < 2 ^ 16)
    (noRst : ∀ n, (i n).rst = false) (idle : Idle (run clkPerBit u i n))
    (arrive : Arrive clkPerBit (fun x => heard (i x)) n e.request.command.code e.request.args
      e.first e.last)
    (silent : Silent (fun x => heard (i x)) (e.last + 1) e.stop)
    (frame : e.last + clkPerBit * frameBitPeriods ≤ e.stop)
    (read : (sent clkPerBit u i n).length + 4 * e.request.words ≤
      (sent clkPerBit u i (e.stop - 1)).length) :
    Handled clkPerBit u i n e := by
  have bits : 10 ≤ clkPerBit * frameBitPeriods := Nat.le_mul_of_pos_left _ pos
  have order := le_of_follow arrive.follow
  obtain ⟨received, same, coming, first, awaits⟩ :=
    request_taken pos fits noRst idle e.request arrive
  rw [← same] at read
  have past : e.last + 1 + e.request.replyClocks clkPerBit ≤ e.stop :=
    reply_over pos fits noRst idle.state idle.halt e.request received (by omega) read
  obtain ⟨done, out, -⟩ :=
    reply_received pos fits noRst idle.state idle.halt e.request received
  obtain ⟨halt, late, reads⟩ :=
    reply_clocks noRst idle.state idle.halt e.request received silent
  obtain ⟨rest, quiet⟩ : Settled (run clkPerBit u i (e.last + 1 + e.request.replyClocks
        clkPerBit)).fsm (run clkPerBit u i e.stop) ∧
      sent clkPerBit u i e.stop = _ := by
    obtain ⟨j, stop⟩ := Nat.exists_eq_add_of_le past
    rw [stop]
    exact idle_silent noRst ⟨rfl, done.txEn, done.ready⟩ done.state j
      fun x lo hi => silent x (by omega) (by omega)
  exact {
    order := ⟨arrive.start, order⟩
    frame := by omega
    past, first, awaits, received
    halt := by
      intro k lo hi
      by_cases early : k ≤ e.last
      · exact (coming k lo early).1
      · exact halt k (by omega) hi
    early := by
      intro k lo hi
      exact (coming k lo hi).2
    reads, late
    idle := idle_of_settled rest done.state done.halt
    out := by rw [quiet, out, same] }

end RiscvSoc.Peripherals.DebugExchange
