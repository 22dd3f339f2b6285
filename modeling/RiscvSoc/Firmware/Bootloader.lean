/- GID: RiscvSoc/Firmware/Bootloader
   generality: G
   utility: model
   digest: The UART bootloader, from one call of its receive routine to the next. -/

import RiscvSoc.Fpga.RiscvTop

set_option autoImplicit false
set_option relaxedAutoImplicit false

namespace RiscvSoc.Firmware.Bootloader

open RiscvSoc.Cpu.Decoder
open RiscvSoc.Memory.ByteLanes
open RiscvSoc.Memory.DpRam
open RiscvSoc.Fpga.RiscvTop

section Receive

/-- `RX_TIMEOUT`. -/
def rxTimeout : Word := 2000000

/-- What one call of `uart_rx_byte` after the other returns, each poll of STATUS seeing a byte or
none; `x6` polls are left to the call under way. A call that runs out of them branches to
`_start`, which calls again. -/
def rxCalls (x6 : Word) : List (Option Byte) → List (Option Byte)
  | [] => []
  | some b :: polls => some b :: rxCalls rxTimeout polls
  | none :: polls =>
    if x6 - 1 = 0 then none :: rxCalls rxTimeout polls else rxCalls (x6 - 1) polls

private theorem rxCalls_empty {x6 : Word} {n : ℕ} (fits : n < x6.toNat)
    (polls : List (Option Byte)) :
    rxCalls x6 (List.replicate n none ++ polls) = rxCalls (x6 - BitVec.ofNat 32 n) polls := by
  induction n generalizing x6 with
  | zero => simp
  | succ n ih =>
    have bound := x6.isLt
    have less : (x6 - 1).toNat = x6.toNat - 1 := by
      rw [BitVec.toNat_sub]
      simp
      omega
    have more : x6 - 1 ≠ 0 := by
      intro last
      have := congrArg BitVec.toNat last
      rw [less] at this
      simp at this
      omega
    simp only [List.replicate_succ, List.cons_append, rxCalls, more, if_false]
    rw [ih (by omega), BitVec.sub_sub]
    congr 2
    rw [Nat.add_comm, BitVec.ofNat_add]
    rfl

/-- As many as the timeout allows, and one more. -/
theorem rxCalls_timeout (polls : List (Option Byte)) :
    rxCalls rxTimeout (List.replicate 2000000 none ++ polls) = none :: rxCalls rxTimeout polls := by
  have split : List.replicate 2000000 (none : Option Byte) =
      List.replicate 1999999 none ++ [none] := (List.replicate_succ' : _ = _)
  rw [split, List.append_assoc, rxCalls_empty (by decide)]
  rfl

theorem rxCalls_bytes (x6 : Word) (bytes : List Byte) :
    rxCalls x6 (bytes.map some) = bytes.map some := by
  induction bytes generalizing x6 with
  | nil => rfl
  | cons b bytes ih => exact congrArg (some b :: ·) (ih rxTimeout)

end Receive

/-- Where the program is: at one of its calls of `uart_rx_byte`, in the program it has loaded, or
in `error_loop`. -/
inductive Label where
  | size0
  | size1
  | size2
  | size3
  | data0
  | data1
  | data2
  | data3
  | checksum
  | program
  | errorLoop
  deriving DecidableEq

namespace Label

/-- A call of `uart_rx_byte`. -/
def receives : Label → Bool
  | program | errorLoop => false
  | _ => true

/-- A call inside `recv_loop`. -/
def inLoop : Label → Bool
  | data0 | data1 | data2 | data3 => true
  | _ => false

end Label

/-- The registers the receiving code works on, the BRAM, and the bytes sent. -/
@[ext] structure Boot where
  label : Label
  x10 : Word
  x20 : Word
  x21 : Word
  x22 : Word
  x23 : Word
  x24 : Word
  mem : BramAddr → Word
  tx : List Byte

/-- `sw`, as `riscv_top` decodes the address. Beyond the BRAM range it goes to a peripheral. -/
def storeWord (mem : BramAddr → Word) (a data : Word) : BramAddr → Word :=
  if inBram a then writeMasked mem (wordIndex a) data 0b1111#4 else mem

namespace Boot

def uartTxByte (s : Boot) : Boot := { s with tx := s.tx ++ [s.x10.extractLsb' 0 8] }

/-- `_start`, up to its first call of `uart_rx_byte`. -/
def start (s : Boot) : Boot := { { s with x10 := 0xAA }.uartTxByte with label := .size0 }

/-- The branch at the head of `recv_loop`. -/
def recvLoop (s : Boot) : Boot := { s with label := if s.x22 = 0 then .checksum else .data0 }

def bootError (s : Boot) : Boot :=
  { { s with x10 := 0xEE }.uartTxByte with label := .errorLoop }

def recvDone (s : Boot) : Boot :=
  if s.x10 ≠ s.x23 then s.bootError
  else { { s with x10 := 0xBB }.uartTxByte with label := .program }

/-- From a return of `uart_rx_byte` with a byte in `x10` to its next call. -/
def resume (s : Boot) : Boot :=
  match s.label with
  | .size0 => { s with x20 := s.x10, label := .size1 }
  | .size1 =>
    let s := { s with x10 := s.x10 <<< 8 }
    { s with x20 := s.x20 ||| s.x10, label := .size2 }
  | .size2 =>
    let s := { s with x10 := s.x10 <<< 16 }
    { s with x20 := s.x20 ||| s.x10, label := .size3 }
  | .size3 =>
    let s := { s with x10 := s.x10 <<< 24 }
    let s := { s with x20 := s.x20 ||| s.x10 }
    { s with x21 := 0x1000, x22 := s.x20, x23 := 0 }.recvLoop
  | .data0 =>
    let s := { s with x23 := s.x23 ^^^ s.x10 }
    { s with x24 := s.x10, label := .data1 }
  | .data1 =>
    let s := { s with x23 := s.x23 ^^^ s.x10, x10 := s.x10 <<< 8 }
    { s with x24 := s.x24 ||| s.x10, label := .data2 }
  | .data2 =>
    let s := { s with x23 := s.x23 ^^^ s.x10, x10 := s.x10 <<< 16 }
    { s with x24 := s.x24 ||| s.x10, label := .data3 }
  | .data3 =>
    let s := { s with x23 := s.x23 ^^^ s.x10, x10 := s.x10 <<< 24 }
    let s := { s with x24 := s.x24 ||| s.x10 }
    let s := { s with mem := storeWord s.mem s.x21 s.x24 }
    { s with x21 := s.x21 + 4, x22 := s.x22 - 4 }.recvLoop
  | .checksum => s.recvDone
  | .program | .errorLoop => s

/-- One call of `uart_rx_byte`, which returns a byte or branches to `_start`, and what follows
until the next. -/
def step (s : Boot) (result : Option Byte) : Boot :=
  if s.label.receives then
    match result with
    | some b => { s with x10 := b.setWidth 32 }.resume
    | none => s.start
  else s

/-- The bootloader after these results of `uart_rx_byte`. -/
def run (s : Boot) (results : List (Option Byte)) : Boot := results.foldl step s

theorem run_append (s : Boot) (xs ys : List (Option Byte)) :
    s.run (xs ++ ys) = (s.run xs).run ys := List.foldl_append

private theorem run_cons (s : Boot) (result : Option Byte) (results : List (Option Byte)) :
    s.run (result :: results) = (s.step result).run results :=
  rfl

theorem run_concat (s : Boot) (results : List (Option Byte)) (result : Option Byte) :
    s.run (results ++ [result]) = (s.run results).step result := run_append s results [result]

/-- Without a call there is nothing to wait for. -/
theorem run_finished {s : Boot} (finished : s.label.receives = false)
    (results : List (Option Byte)) : s.run results = s := by
  induction results with
  | nil => rfl
  | cons result results ih =>
    have stays : s.step result = s := by simp [step, finished]
    rw [run_cons, stays]
    exact ih

theorem step_none {s : Boot} (receives : s.label.receives = true) : s.step none = s.start := by
  simp [step, receives]

end Boot

end RiscvSoc.Firmware.Bootloader
