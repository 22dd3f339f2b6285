/- GID: RiscvSoc/Firmware/BootRefinement
   generality: G
   utility: main
   digest: The machine code of the bootloader follows the model of the bootloader, call by call. -/

import RiscvSoc.Firmware.BootCode
import RiscvSoc.Fpga.AddressMap

set_option autoImplicit false
set_option relaxedAutoImplicit false

namespace RiscvSoc.Firmware.BootRefinement

open RiscvSoc.Cpu.Decoder (Word)
open RiscvSoc.Cpu.Datapath (CsrFile)
open RiscvSoc.Cpu.IsaStep (csrSpace)
open RiscvSoc.Isa.Rv32Alu
open RiscvSoc.Isa.Rv32Instr
open RiscvSoc.Isa.Rv32Hart
open RiscvSoc.Isa.Rv32Program
open RiscvSoc.Memory.ByteLanes
open RiscvSoc.Memory.ByteMemory
open RiscvSoc.Memory.DpRam
open RiscvSoc.Fpga.AddressMap (inUart_apart)
open RiscvSoc.Fpga.RiscvTop
open RiscvSoc.Firmware.Bootloader
open RiscvSoc.Firmware.Containment (bootWords Fits Reads Sound sound_run inProgram_of_counts)
open RiscvSoc.Firmware.BootCode

section Relation

/-- The instruction behind each call of `uart_rx_byte`, the loaded program, and `error_loop`. -/
def returnIndex : Label → ℕ
  | .size0 => 6
  | .size1 => 8
  | .size2 => 11
  | .size3 => 14
  | .data0 => 21
  | .data1 => 24
  | .data2 => 28
  | .data3 => 32
  | .checksum => 40
  | .program => 0x400
  | .errorLoop => 47

/-- The registers that the model keeps. -/
structure Holds (r : Regs) (b : Boot) : Prop where
  x20 : r.read 20#5 = b.x20
  x21 : r.read 21#5 = b.x21
  x22 : r.read 22#5 = b.x22
  x23 : r.read 23#5 = b.x23
  x24 : r.read 24#5 = b.x24

private theorem Holds.of_sameBut {r r' : Regs} {b : Boot} {d : List (BitVec 5)} (holds : Holds r b)
    (same : SameBut d r r') (apart : ∀ i ∈ [20#5, 21#5, 22#5, 23#5, 24#5], i ∉ d) : Holds r' b where
  x20 := (same _ (apart _ (by simp))).trans holds.x20
  x21 := (same _ (apart _ (by simp))).trans holds.x21
  x22 := (same _ (apart _ (by simp))).trans holds.x22
  x23 := (same _ (apart _ (by simp))).trans holds.x23
  x24 := (same _ (apart _ (by simp))).trans holds.x24

private theorem Holds.goto {r : Regs} {b : Boot} (holds : Holds r b) (l : Label) :
    Holds r { b with label := l } :=
  ⟨holds.x20, holds.x21, holds.x22, holds.x23, holds.x24⟩

variable {σ : Type}

/-- The machine is where the model is: at the head of `uart_rx_byte` with the return address of the
call, or else at the instruction itself. -/
def At (c : σ) (b : Boot) (n : ℕ) (s : Machine σ BootMem) : Prop :=
  ∃ r, Holds r b ∧ r.read 3#5 = 0x10000000#32 ∧
    if b.label.receives then
      s = place 0 53 r c ⟨b.mem, n, b.tx⟩ ∧ r.read 1#5 = addr 0 (returnIndex b.label)
    else s = place 0 (returnIndex b.label) r c ⟨b.mem, n, b.tx⟩

end Relation

section Session

/-- One call of `uart_rx_byte` at load `n`, with `left` polls to go: what it returns, and the loads
after it. -/
def rxByte (uart : ℕ → Answer) : ℕ → ℕ → Option Byte × ℕ
  | 0, n => (none, n)
  | left + 1, n =>
    if (uart n).done then (some (uart (n + 1)).data, n + 2) else rxByte uart left (n + 1)

private theorem rxByte_cases (uart : ℕ → Answer) (left n : ℕ) :
    (rxByte uart left n = (none, n + left) ∧ ∀ j < left, (uart (n + j)).done = false) ∨
      ∃ k < left, rxByte uart left n = (some (uart (n + k + 1)).data, n + k + 2) ∧
        (∀ j < k, (uart (n + j)).done = false) ∧ (uart (n + k)).done = true := by
  induction left generalizing n with
  | zero => exact .inl ⟨rfl, fun j less => absurd less (Nat.not_lt_zero j)⟩
  | succ left ih =>
    cases done : (uart n).done with
    | true =>
      refine .inr ⟨0, Nat.succ_pos left, ?_, fun j less => absurd less (Nat.not_lt_zero j), done⟩
      rw [rxByte, if_pos done]
    | false =>
      have later : ∀ k, n + 1 + k = n + (k + 1) := fun k => by omega
      have before : ∀ k, (∀ j < k, (uart (n + 1 + j)).done = false) →
          ∀ j < k + 1, (uart (n + j)).done = false := by
        intro k rest j less
        cases j with
        | zero => exact done
        | succ j => exact later j ▸ rest j (by omega)
      rw [rxByte, if_neg (by simp [done])]
      rcases ih (n + 1) with ⟨same, empty⟩ | ⟨k, less, same, empty, ready⟩
      · refine .inl ⟨?_, before left empty⟩
        rw [same, later]
      · refine .inr ⟨k + 1, by omega, ?_, before k empty, later k ▸ ready⟩
        rw [same, later]

private theorem rxByte_timeout {uart : ℕ → Answer} {left n : ℕ}
    (empty : ∀ j < left, (uart (n + j)).done = false) : rxByte uart left n = (none, n + left) := by
  rcases rxByte_cases uart left n with ⟨same, -⟩ | ⟨k, less, -, -, ready⟩
  · exact same
  · exact absurd (ready.symm.trans (empty k less)) (by decide)

/-- `wait n` looks at STATUS from load `n` on find the UART busy, the next one finds it free. -/
structure Frees (uart : ℕ → Answer) (wait : ℕ → ℕ) : Prop where
  busy : ∀ n, ∀ j < wait n, (uart (n + j)).busy = true
  free : ∀ n, (uart (n + wait n)).busy = false

/-- The loads after `uart_tx_byte` has found the UART free. -/
def txDone (wait : ℕ → ℕ) (n : ℕ) : ℕ := n + wait n + 1

/-- The model at one of its calls, the UART loads made by then, and what the calls have
returned. -/
structure Session where
  boot : Boot
  loads : ℕ
  results : List (Option Byte)

variable (uart : ℕ → Answer) (wait : ℕ → ℕ)

def Session.next (s : Session) : Session :=
  if s.boot.label.receives then
    let call := rxByte uart 2000000 s.loads
    let b := s.boot.step call.1
    { boot := b
      loads := if b.tx = s.boot.tx then call.2 else txDone wait call.2
      results := s.results ++ [call.1] }
  else s

/-- The session after `j` calls. -/
def session (b : Boot) : ℕ → Session
  | 0 => { boot := b.start, loads := txDone wait 0, results := [] }
  | j + 1 => (session b j).next uart wait

private theorem session_add (b : Boot) (i j : ℕ) :
    session uart wait b (i + j) = (Session.next uart wait)^[j] (session uart wait b i) := by
  induction j with
  | zero => rfl
  | succ j ih =>
    rw [Function.iterate_succ_apply', ← ih]
    rfl

private theorem session_boot (b : Boot) (j : ℕ) :
    (session uart wait b j).boot = b.start.run (session uart wait b j).results := by
  induction j with
  | zero => rfl
  | succ j ih =>
    rw [session, Session.next]
    split_ifs with receives
    · exact (congrArg (Boot.step · _) ih).trans (Boot.run_concat _ _ _).symm
    · exact ih

private theorem session_isPrefix (b : Boot) {i j : ℕ} (le : i ≤ j) :
    (session uart wait b i).results <+: (session uart wait b j).results := by
  induction j, le using Nat.le_induction with
  | base => exact List.prefix_refl _
  | succ j le ih =>
    refine ih.trans ?_
    rw [session, Session.next]
    split_ifs
    · exact List.prefix_append _ _
    · exact List.prefix_refl _

private theorem reads_of_isPrefix {b : Boot} {size : Word} {results longer : List (Option Byte)}
    (le : results <+: longer) (reads : Reads b results size) : Reads b longer size := by
  obtain ⟨rest, rfl⟩ := le
  obtain ⟨before, after, rfl, waiting⟩ := reads
  exact ⟨before, after ++ rest, by simp, waiting⟩

end Session

section Segments

private theorem word_store {uart : ℕ → Answer} {mem : BramAddr → Word} {n : ℕ} {tx : List Byte}
    {a : Word}
    (inside : inBram a = true) (aligned : a.toNat % 4 = 0) (v : Word) :
    (bootBus uart).access ⟨mem, n, tx⟩ (.store .sw a v) = ⟨storeWord mem a v, n, tx⟩ := by
  have offset : a.extractLsb' 0 2 = 0#2 := by
    apply BitVec.eq_of_toNat_eq
    rw [BitVec.extractLsb'_toNat, Nat.shiftRight_zero]
    exact aligned
  have other : inUart a = false := by
    rw [← Bool.not_eq_true]
    intro uart
    exact absurd (inside.symm.trans (inUart_apart a uart)) (by decide)
  have whole : Cpu.Datapath.storeData v 0#2 = v := BitVec.shiftLeft_zero v
  change BootMem.mk (if inBram a then _ else _) n (if inUart a && _ then _ else _) = _
  rw [offset, whole, other, storeWord]
  rfl

variable {σ : Type} (csrs : CsrSpace σ) (c : σ) {uart : ℕ → Answer} {code : BramAddr → Word}
variable (at0 : CodeAt (bootBus uart) 0 program (Keeps code))
variable {b : Boot} {n : ℕ} {r : Regs}
include at0

private theorem reaches_call (keeps : Keeps code ⟨b.mem, n, b.tx⟩) {k : ℕ} {offset : BitVec 20}
    (get : program[k]? = some (.jal 1 offset))
    (target : addr 0 k + (offset ++ 0#1).signExtend 32 = addr 0 53)
    (receives : b.label.receives = true) (back : returnIndex b.label = k + 1) (holds : Holds r b)
    (base : r.read 3#5 = 0x10000000#32) :
    ∃ s, Reaches csrs (bootBus uart) (place 0 k r c ⟨b.mem, n, b.tx⟩) s ∧ At c b n s := by
  have same : SameBut [1] r (r.set 1 (addr 0 (k + 1))) := (SameBut.refl [1] r).set (by decide) _
  refine ⟨_, reaches_jal at0 keeps get target, _, holds.of_sameBut same (by decide),
    (same 3 (by decide)).trans base, ?_⟩
  rw [if_pos receives, back]
  exact ⟨rfl, Regs.set_read_same (by decide)⟩

private theorem reaches_block_call (keeps : Keeps code ⟨b.mem, n, b.tx⟩) {k : ℕ}
    (block : List Instr)
    (get : block <+: program.drop k) (pure : block.all computes = true) {offset : BitVec 20}
    (jump : program[k + block.length]? = some (.jal 1 offset))
    (target : addr 0 (k + block.length) + (offset ++ 0#1).signExtend 32 = addr 0 53)
    (receives : b.label.receives = true) (back : returnIndex b.label = k + block.length + 1)
    (holds : Holds (block.foldl compute r) b)
    (base : (block.foldl compute r).read 3#5 = 0x10000000#32) :
    ∃ s, Reaches csrs (bootBus uart) (place 0 k r c ⟨b.mem, n, b.tx⟩) s ∧ At c b n s := by
  obtain ⟨s, call, there⟩ := reaches_call csrs c at0 keeps jump target receives back holds base
  exact ⟨s, Reaches.trans (reaches_block at0 keeps block get pure) call, there⟩

private theorem reaches_recvLoop (keeps : Keeps code ⟨b.mem, n, b.tx⟩) (holds : Holds r b)
    (base : r.read 3#5 = 0x10000000#32) :
    ∃ s, Reaches csrs (bootBus uart) (place 0 19 r c ⟨b.mem, n, b.tx⟩) s ∧ At c b.recvLoop n s := by
  have get : program[19]? = some (.branch .beq 22 0 0x28) := rfl
  by_cases done : b.x22 = 0
  · have same : b.recvLoop = { b with label := .checksum } := by rw [Boot.recvLoop, if_pos done]
    have branch : Reaches csrs (bootBus uart) (place 0 19 r c ⟨b.mem, n, b.tx⟩)
        (place 0 39 r c ⟨b.mem, n, b.tx⟩) := by
      refine reaches_taken at0 keeps get ?_ (by decide)
      rw [show r.read 22 = b.x22 from holds.x22, show r.read 0 = 0 from r.zero, done]
      rfl
    have call : program[39]? = some (.jal 1 0x1C) := rfl
    obtain ⟨s, jump, there⟩ := reaches_call csrs c at0 (b := { b with label := .checksum }) keeps
      call (by decide) rfl rfl (holds.goto _) base
    rw [same]
    exact ⟨s, branch.trans jump, there⟩
  · have same : b.recvLoop = { b with label := .data0 } := by rw [Boot.recvLoop, if_neg done]
    have branch : Reaches csrs (bootBus uart) (place 0 19 r c ⟨b.mem, n, b.tx⟩)
        (place 0 20 r c ⟨b.mem, n, b.tx⟩) := by
      refine reaches_not_taken at0 keeps get ?_
      rw [show r.read 22 = b.x22 from holds.x22, show r.read 0 = 0 from r.zero]
      simpa [BranchOp.taken] using done
    have call : program[20]? = some (.jal 1 0x42) := rfl
    obtain ⟨s, jump, there⟩ := reaches_call csrs c at0 (b := { b with label := .data0 }) keeps
      call (by decide) rfl rfl (holds.goto _) base
    rw [same]
    exact ⟨s, branch.trans jump, there⟩

private theorem reaches_send {wait : ℕ → ℕ} (frees : Frees uart wait)
    (keeps : Keeps code ⟨b.mem, n, b.tx⟩) {k : ℕ} {offset : BitVec 20}
    (get : program[k]? = some (.jal 1 offset))
    (target : addr 0 k + (offset ++ 0#1).signExtend 32 = addr 0 48)
    (base : r.read 3#5 = 0x10000000#32) :
    ∃ r', Reaches csrs (bootBus uart) (place 0 k r c ⟨b.mem, n, b.tx⟩)
        (place 0 (k + 1) r' c ⟨b.mem, txDone wait n, b.tx ++ [(r.read 10#5).extractLsb' 0 8]⟩) ∧
      SameBut [1, 4] r r' := by
  have same : SameBut [1, 4] r (r.set 1 (addr 0 (k + 1))) :=
    (SameBut.refl [1, 4] r).set (by decide) _
  have call : Reaches csrs (bootBus uart) (place 0 k r c ⟨b.mem, n, b.tx⟩)
      (place 0 48 (r.set 1 (addr 0 (k + 1))) c ⟨b.mem, n, b.tx⟩) := reaches_jal at0 keeps get target
  obtain ⟨r', send, same'⟩ := reaches_tx csrs c at0 keeps ((same 3 (by decide)).trans base)
    (Regs.set_read_same (by decide))
    (frees.busy n) (frees.free n)
  rw [show (r.set 1 (addr 0 (k + 1))).read 10#5 = r.read 10#5 from same 10 (by decide)] at send
  exact ⟨r', call.trans send, same.trans (same'.mono (by decide))⟩

private theorem reaches_start {wait : ℕ → ℕ} (frees : Frees uart wait)
    (keeps : Keeps code ⟨b.mem, n, b.tx⟩) (holds : Holds r b) :
    ∃ s, Reaches csrs (bootBus uart) (place 0 0 r c ⟨b.mem, n, b.tx⟩) s ∧
      At c b.start (txDone wait n) s := by
  let block : List Instr :=
    [.lui 2 0x4, .imm .addi 2 2 0xFFC, .lui 3 0x10000, .imm .addi 10 0 0xAA]
  have setup : Reaches csrs (bootBus uart) (place 0 0 r c ⟨b.mem, n, b.tx⟩)
      (place 0 4 (block.foldl compute r) c ⟨b.mem, n, b.tx⟩) :=
    reaches_block at0 keeps block (by decide) rfl
  have same : SameBut [2, 3, 10] r (block.foldl compute r) :=
    ((((SameBut.refl [2, 3, 10] r).set (by decide) _).set (by decide) _).set (by decide) _).set
      (by decide) _
  have base : (block.foldl compute r).read 3#5 = 0x10000000#32 := by simp [block, compute]
  have x10 : (block.foldl compute r).read 10#5 = 0xAA#32 := by
    simp [block, compute, ImmOp.reg, RegOp.value, RegOp.mnemonic, Mnemonic.value]
  have call : program[4]? = some (.jal 1 0x58) := rfl
  obtain ⟨r1, send, same1⟩ := reaches_send csrs c at0 frees keeps call (by decide) base
  rw [x10] at send
  have again : program[5]? = some (.jal 1 0x60) := rfl
  have kept : Holds r1 b.start := by
    have all := (holds.of_sameBut same (by decide)).of_sameBut same1 (by decide)
    exact ⟨all.x20, all.x21, all.x22, all.x23, all.x24⟩
  obtain ⟨s, jump, there⟩ := reaches_call csrs c at0 (b := b.start) (keeps.at _ _) again (by decide)
    rfl rfl kept ((same1 3 (by decide)).trans base)
  exact ⟨s, setup.trans (send.trans jump), there⟩

private theorem reaches_header (keeps : Keeps code ⟨b.mem, n, b.tx⟩) (holds : Holds r b)
    (base : r.read 3#5 = 0x10000000#32) (x10 : r.read 10#5 = b.x10)
    (label : b.label = .size0 ∨ b.label = .size1 ∨ b.label = .size2 ∨ b.label = .size3) :
    ∃ s, Reaches csrs (bootBus uart) (place 0 (returnIndex b.label) r c ⟨b.mem, n, b.tx⟩) s ∧
      At c b.resume n s := by
  obtain ⟨x20, x21, x22, x23, x24⟩ := holds
  rcases label with label | label | label | label <;> rw [label, Boot.resume, label]
  · refine reaches_block_call csrs c at0 (b := { b with x20 := b.x10, label := .size1 }) keeps
      [.imm .addi 20 10 0] (by decide) rfl (show program[7]? = some (.jal 1 0x5C) from rfl)
      (by decide) rfl rfl ?_ (by simp [compute, base])
    constructor <;>
      simp [compute, ImmOp.reg, RegOp.value, RegOp.mnemonic, Mnemonic.value, x10, x21, x22, x23,
        x24]
  · refine reaches_block_call csrs c at0
      (b := { b with x10 := b.x10 <<< 8, x20 := b.x20 ||| b.x10 <<< 8, label := .size2 }) keeps
      [.shift .slli 10 10 8, .reg .or 20 20 10] (by decide) rfl
      (show program[10]? = some (.jal 1 0x56) from rfl) (by decide) rfl rfl ?_
      (by simp [compute, base])
    constructor <;>
      simp [compute, ShiftOp.reg, RegOp.value, RegOp.mnemonic, Mnemonic.value, x10, x20, x21, x22,
        x23, x24]
  · refine reaches_block_call csrs c at0
      (b := { b with x10 := b.x10 <<< 16, x20 := b.x20 ||| b.x10 <<< 16, label := .size3 }) keeps
      [.shift .slli 10 10 16, .reg .or 20 20 10] (by decide) rfl
      (show program[13]? = some (.jal 1 0x50) from rfl) (by decide) rfl rfl ?_
      (by simp [compute, base])
    constructor <;>
      simp [compute, ShiftOp.reg, RegOp.value, RegOp.mnemonic, Mnemonic.value, x10, x20, x21, x22,
        x23, x24]
  · let block : List Instr := [.shift .slli 10 10 24, .reg .or 20 20 10, .lui 21 0x1,
      .imm .addi 22 20 0, .imm .addi 23 0 0]
    let t : Boot := { b with
      x10 := b.x10 <<< 24, x20 := b.x20 ||| b.x10 <<< 24, x21 := 0x1000
      x22 := b.x20 ||| b.x10 <<< 24, x23 := 0 }
    have run : Reaches csrs (bootBus uart) (place 0 14 r c ⟨b.mem, n, b.tx⟩)
        (place 0 19 (block.foldl compute r) c ⟨t.mem, n, t.tx⟩) :=
      reaches_block at0 keeps block (by decide) rfl
    have kept : Holds (block.foldl compute r) t := by
      constructor <;>
        simp [block, t, compute, ShiftOp.reg, ImmOp.reg, RegOp.value, RegOp.mnemonic,
          Mnemonic.value, x10, x20, x24]
    obtain ⟨s, branch, there⟩ := reaches_recvLoop csrs c at0 (b := t) keeps kept
      (by simp [block, compute, base])
    exact ⟨s, run.trans branch, there⟩

private theorem reaches_data (keeps : Keeps code ⟨b.mem, n, b.tx⟩) (holds : Holds r b)
    (base : r.read 3#5 = 0x10000000#32) (x10 : r.read 10#5 = b.x10)
    (label : b.label = .data0 ∨ b.label = .data1 ∨ b.label = .data2) :
    ∃ s, Reaches csrs (bootBus uart) (place 0 (returnIndex b.label) r c ⟨b.mem, n, b.tx⟩) s ∧
      At c b.resume n s := by
  obtain ⟨x20, x21, x22, x23, x24⟩ := holds
  rcases label with label | label | label <;> rw [label, Boot.resume, label]
  · refine reaches_block_call csrs c at0
      (b := { b with x23 := b.x23 ^^^ b.x10, x24 := b.x10, label := .data1 }) keeps
      [.reg .xor 23 23 10, .imm .addi 24 10 0] (by decide) rfl
      (show program[23]? = some (.jal 1 0x3C) from rfl) (by decide) rfl rfl ?_
      (by simp [compute, base])
    constructor <;>
      simp [compute, ImmOp.reg, RegOp.value, RegOp.mnemonic, Mnemonic.value, x10, x20, x21, x22,
        x23]
  · refine reaches_block_call csrs c at0
      (b := { b with
        x23 := b.x23 ^^^ b.x10, x10 := b.x10 <<< 8, x24 := b.x24 ||| b.x10 <<< 8
        label := .data2 }) keeps
      [.reg .xor 23 23 10, .shift .slli 10 10 8, .reg .or 24 24 10] (by decide) rfl
      (show program[27]? = some (.jal 1 0x34) from rfl) (by decide) rfl rfl ?_
      (by simp [compute, base])
    constructor <;>
      simp [compute, ShiftOp.reg, RegOp.value, RegOp.mnemonic, Mnemonic.value, x10, x20, x21, x22,
        x23, x24]
  · refine reaches_block_call csrs c at0
      (b := { b with
        x23 := b.x23 ^^^ b.x10, x10 := b.x10 <<< 16, x24 := b.x24 ||| b.x10 <<< 16
        label := .data3 }) keeps
      [.reg .xor 23 23 10, .shift .slli 10 10 16, .reg .or 24 24 10] (by decide) rfl
      (show program[31]? = some (.jal 1 0x2C) from rfl) (by decide) rfl rfl ?_
      (by simp [compute, base])
    constructor <;>
      simp [compute, ShiftOp.reg, RegOp.value, RegOp.mnemonic, Mnemonic.value, x10, x20, x21, x22,
        x23, x24]

private theorem reaches_word (keeps : Keeps code ⟨b.mem, n, b.tx⟩)
    (keeps' : Keeps code ⟨b.resume.mem, n, b.tx⟩) (inside : inBram b.x21 = true)
    (aligned : b.x21.toNat % 4 = 0) (holds : Holds r b) (base : r.read 3#5 = 0x10000000#32)
    (x10 : r.read 10#5 = b.x10) (label : b.label = .data3) :
    ∃ s, Reaches csrs (bootBus uart) (place 0 (returnIndex b.label) r c ⟨b.mem, n, b.tx⟩) s ∧
      At c b.resume n s := by
  obtain ⟨x20, x21, x22, x23, x24⟩ := holds
  let word : Word := b.x24 ||| b.x10 <<< 24
  let t : Boot := { b with
    x23 := b.x23 ^^^ b.x10, x10 := b.x10 <<< 24, x24 := word
    mem := storeWord b.mem b.x21 word, x21 := b.x21 + 4, x22 := b.x22 - 4 }
  have goes : b.resume = t.recvLoop := by
    rw [Boot.resume, label]
    rfl
  have mem : b.resume.mem = t.mem := by
    rw [goes]
    rfl
  rw [mem] at keeps'
  let block : List Instr := [.reg .xor 23 23 10, .shift .slli 10 10 24, .reg .or 24 24 10]
  have first : Reaches csrs (bootBus uart) (place 0 32 r c ⟨b.mem, n, b.tx⟩)
      (place 0 35 (block.foldl compute r) c ⟨b.mem, n, b.tx⟩) :=
    reaches_block at0 keeps block (by decide) rfl
  generalize fold : block.foldl compute r = r1 at first
  have same : SameBut [10, 23, 24] r r1 := by
    rw [← fold]
    exact (((SameBut.refl [10, 23, 24] r).set (by decide) _).set (by decide) _).set (by decide) _
  have y3 : r1.read 3#5 = 0x10000000#32 := (same 3 (by decide)).trans base
  have y20 : r1.read 20#5 = b.x20 := (same 20 (by decide)).trans x20
  have y21 : r1.read 21#5 = b.x21 := (same 21 (by decide)).trans x21
  have y22 : r1.read 22#5 = b.x22 := (same 22 (by decide)).trans x22
  have y23 : r1.read 23#5 = b.x23 ^^^ b.x10 := by
    rw [← fold]
    simp [block, compute, RegOp.value, RegOp.mnemonic, Mnemonic.value, x10, x23]
  have y24 : r1.read 24#5 = word := by
    rw [← fold]
    simp [block, compute, ShiftOp.reg, RegOp.value, RegOp.mnemonic, Mnemonic.value, x10, x24, word]
  have store : Reaches csrs (bootBus uart) (place 0 35 r1 c ⟨b.mem, n, b.tx⟩)
      (place 0 36 r1 c ⟨t.mem, n, t.tx⟩) := by
    have get : program[35]? = some (.store .sw 21 24 0) := rfl
    have put : (bootBus uart).access ⟨b.mem, n, b.tx⟩ (.store .sw b.x21 (r1.read 24#5)) =
        ⟨t.mem, n, t.tx⟩ := by
      rw [y24]
      exact word_store inside aligned word
    rw [← put]
    exact reaches_store at0 keeps get (by simp [y21]) aligned
  let bump : List Instr := [.imm .addi 21 21 4, .imm .addi 22 22 0xFFC]
  have next : Reaches csrs (bootBus uart) (place 0 36 r1 c ⟨t.mem, n, t.tx⟩)
      (place 0 38 (bump.foldl compute r1) c ⟨t.mem, n, t.tx⟩) :=
    reaches_block at0 keeps' bump (by decide) rfl
  generalize fold' : bump.foldl compute r1 = r2 at next
  have kept : Holds r2 t := by
    rw [← fold']
    have minus : b.x22 + 0xFFFFFFFC#32 = b.x22 - 4 := (BitVec.sub_eq_add_neg b.x22 4).symm
    constructor
    · simp [bump, t, compute, y20]
    · simp [bump, t, compute, ImmOp.reg, RegOp.value, RegOp.mnemonic, Mnemonic.value, y21]
    · rw [show t.x22 = b.x22 - 4 from rfl, ← minus]
      simp [bump, compute, ImmOp.reg, RegOp.value, RegOp.mnemonic, Mnemonic.value, y22]
    · simp [bump, t, compute, y23]
    · simp [bump, t, compute, y24]
  have base' : r2.read 3#5 = 0x10000000#32 := by
    rw [← fold']
    simp [bump, compute, y3]
  have jump : Reaches csrs (bootBus uart) (place 0 38 r2 c ⟨t.mem, n, t.tx⟩)
      (place 0 19 (r2.set 0 (addr 0 39)) c ⟨t.mem, n, t.tx⟩) :=
    reaches_jal at0 keeps' (show program[38]? = some (.jal 0 0xFFFDA) from rfl) (by decide)
  rw [show r2.set 0 (addr 0 39) = r2 from Regs.set_zero] at jump
  obtain ⟨s, branch, there⟩ := reaches_recvLoop csrs c at0 (b := t) keeps' kept base'
  rw [label, goes]
  exact ⟨s, first.trans (store.trans (next.trans (jump.trans branch))), there⟩

private theorem reaches_verdict {wait : ℕ → ℕ} (frees : Frees uart wait)
    (keeps : Keeps code ⟨b.mem, n, b.tx⟩) (holds : Holds r b) (base : r.read 3#5 = 0x10000000#32)
    {k : ℕ} {offset : BitVec 20} (verdict : BitVec 12)
    (set : [.imm .addi 10 0 verdict] <+: program.drop k)
    (get : program[k + 1]? = some (.jal 1 offset))
    (target : addr 0 (k + 1) + (offset ++ 0#1).signExtend 32 = addr 0 48) :
    ∃ r', Reaches csrs (bootBus uart) (place 0 k r c ⟨b.mem, n, b.tx⟩)
        (place 0 (k + 2) r' c
          ⟨b.mem, txDone wait n, b.tx ++ [(verdict.signExtend 32).extractLsb' 0 8]⟩) ∧
      Holds r' b ∧ r'.read 3#5 = 0x10000000#32 := by
  let block : List Instr := [.imm .addi 10 0 verdict]
  have put : Reaches csrs (bootBus uart) (place 0 k r c ⟨b.mem, n, b.tx⟩)
      (place 0 (k + 1) (block.foldl compute r) c ⟨b.mem, n, b.tx⟩) :=
    reaches_block at0 keeps block set rfl
  have same : SameBut [10] r (block.foldl compute r) := (SameBut.refl [10] r).set (by decide) _
  have x10 : (block.foldl compute r).read 10#5 = verdict.signExtend 32 := by
    simp [block, compute, ImmOp.reg, RegOp.value, RegOp.mnemonic, Mnemonic.value]
  obtain ⟨r', send, same'⟩ := reaches_send csrs c at0 frees keeps get target
    ((same 3 (by decide)).trans base)
  rw [x10] at send
  exact ⟨r', put.trans send, (holds.of_sameBut same (by decide)).of_sameBut same' (by decide),
    (same' 3 (by decide)).trans ((same 3 (by decide)).trans base)⟩

private theorem reaches_done {wait : ℕ → ℕ} (frees : Frees uart wait)
    (keeps : Keeps code ⟨b.mem, n, b.tx⟩) (holds : Holds r b) (base : r.read 3#5 = 0x10000000#32)
    (x10 : r.read 10#5 = b.x10) (label : b.label = .checksum) :
    ∃ s, Reaches csrs (bootBus uart) (place 0 (returnIndex b.label) r c ⟨b.mem, n, b.tx⟩) s ∧
      At c b.resume (txDone wait n) s := by
  have goes : b.resume = b.recvDone := by rw [Boot.resume, label]
  have test : program[40]? = some (.branch .bne 10 23 0xA) := rfl
  rw [goes, label, Boot.recvDone]
  by_cases fits : b.x10 = b.x23
  · rw [if_neg (not_not.mpr fits)]
    have branch : Reaches csrs (bootBus uart) (place 0 40 r c ⟨b.mem, n, b.tx⟩)
        (place 0 41 r c ⟨b.mem, n, b.tx⟩) := by
      refine reaches_not_taken at0 keeps test ?_
      rw [show r.read 10 = b.x10 from x10, show r.read 23 = b.x23 from holds.x23, fits]
      simp [BranchOp.taken]
    obtain ⟨r1, send, holds1, base1⟩ := reaches_verdict csrs c at0 frees keeps holds base 0xBB
      (show [.imm .addi 10 0 0xBB] <+: program.drop 41 by decide)
      (show program[42]? = some (.jal 1 0xC) from rfl) (by decide)
    let block : List Instr := [.lui 4 0x1]
    have load : Reaches csrs (bootBus uart)
        (place 0 43 r1 c ⟨b.mem, txDone wait n, b.tx ++ [0xBB#8]⟩)
        (place 0 44 (block.foldl compute r1) c ⟨b.mem, txDone wait n, b.tx ++ [0xBB#8]⟩) :=
      reaches_block at0 (keeps.at _ _) block (by decide) rfl
    have same : SameBut [4] r1 (block.foldl compute r1) := (SameBut.refl [4] r1).set (by decide) _
    have jump : Reaches csrs (bootBus uart)
        (place 0 44 (block.foldl compute r1) c ⟨b.mem, txDone wait n, b.tx ++ [0xBB#8]⟩)
        (place 0 0x400 ((block.foldl compute r1).set 0 (addr 0 45)) c
          ⟨b.mem, txDone wait n, b.tx ++ [0xBB#8]⟩) := by
      refine reaches_jalr at0 (keeps.at _ _) (show program[44]? = some (.jalr 0 4 0) from rfl) ?_
      simp [block, compute, addr]
    rw [show (block.foldl compute r1).set 0 (addr 0 45) = _ from Regs.set_zero] at jump
    have holds2 := holds1.of_sameBut same (by decide)
    refine ⟨_, branch.trans (send.trans (load.trans jump)), _,
      ⟨holds2.x20, holds2.x21, holds2.x22, holds2.x23, holds2.x24⟩,
      (same 3 (by decide)).trans base1, rfl⟩
  · rw [if_pos fits]
    have branch : Reaches csrs (bootBus uart) (place 0 40 r c ⟨b.mem, n, b.tx⟩)
        (place 0 45 r c ⟨b.mem, n, b.tx⟩) := by
      refine reaches_taken at0 keeps test ?_ (by decide)
      rw [show r.read 10 = b.x10 from x10, show r.read 23 = b.x23 from holds.x23]
      simpa [BranchOp.taken] using fits
    obtain ⟨r1, send, holds1, base1⟩ := reaches_verdict csrs c at0 frees keeps holds base 0xEE
      (show [.imm .addi 10 0 0xEE] <+: program.drop 45 by decide)
      (show program[46]? = some (.jal 1 0x4) from rfl) (by decide)
    exact ⟨_, branch.trans send, r1, ⟨holds1.x20, holds1.x21, holds1.x22, holds1.x23, holds1.x24⟩,
      base1, rfl⟩

private theorem reaches_resume {wait : ℕ → ℕ} (frees : Frees uart wait) (sound : Sound code b)
    (sound' : Sound code b.resume) (receives : b.label.receives = true) (holds : Holds r b)
    (base : r.read 3#5 = 0x10000000#32) (x10 : r.read 10#5 = b.x10) :
    ∃ s, Reaches csrs (bootBus uart) (place 0 (returnIndex b.label) r c ⟨b.mem, n, b.tx⟩) s ∧
      At c b.resume (if b.resume.tx = b.tx then n else txDone wait n) s := by
  have keeps : Keeps code ⟨b.mem, n, b.tx⟩ := sound.bootloader
  cases label : b.label with
  | size0 | size1 | size2 =>
    have silent : b.resume.tx = b.tx := by rw [Boot.resume, label]
    rw [if_pos silent, ← label]
    exact reaches_header csrs c at0 keeps holds base x10 (by simp [label])
  | size3 =>
    have silent : b.resume.tx = b.tx := by
      rw [Boot.resume, label]
      rfl
    rw [if_pos silent, ← label]
    exact reaches_header csrs c at0 keeps holds base x10 (by simp [label])
  | data0 | data1 | data2 =>
    have silent : b.resume.tx = b.tx := by rw [Boot.resume, label]
    rw [if_pos silent, ← label]
    exact reaches_data csrs c at0 keeps holds base x10 (by simp [label])
  | data3 =>
    have silent : b.resume.tx = b.tx := by
      rw [Boot.resume, label]
      rfl
    have counts := sound.counts (by rw [label]; rfl)
    rw [if_pos silent, ← label]
    refine reaches_word csrs c at0 keeps sound'.bootloader (inProgram_of_counts counts).1 ?_ holds
      base x10 label
    obtain ⟨⟨whole, -⟩, sum, words, -, -⟩ := counts
    omega
  | checksum =>
    have sends : b.resume.tx ≠ b.tx := by
      rw [Boot.resume, label]
      change b.recvDone.tx ≠ b.tx
      rw [Boot.recvDone]
      split_ifs <;> simp [Boot.bootError, Boot.uartTxByte]
    rw [if_neg sends, ← label]
    exact reaches_done csrs c at0 frees keeps holds base x10 label
  | program | errorLoop => exact absurd receives (by simp [label, Label.receives])

private theorem reaches_next {wait : ℕ → ℕ} (frees : Frees uart wait) {s : Session}
    {m : Machine σ BootMem} (there : At c s.boot s.loads m) (sound : Sound code s.boot)
    (sound' : Sound code (s.next uart wait).boot) :
    ∃ m', Reaches csrs (bootBus uart) m m' ∧
      At c (s.next uart wait).boot (s.next uart wait).loads m' := by
  cases receives : s.boot.label.receives with
  | false =>
    have same : s.next uart wait = s := by rw [Session.next, receives, if_neg Bool.false_ne_true]
    rw [same]
    exact ⟨m, Reaches.refl, there⟩
  | true =>
    obtain ⟨r, holds, base, here⟩ := there
    rw [if_pos receives] at here
    obtain ⟨rfl, ra⟩ := here
    have keeps : Keeps code ⟨s.boot.mem, s.loads, s.boot.tx⟩ := sound.bootloader
    rw [Session.next, if_pos receives] at sound' ⊢
    rcases rxByte_cases uart 2000000 s.loads with ⟨call, empty⟩ | ⟨k, less, call, empty, ready⟩
    · rw [call] at sound' ⊢
      obtain ⟨r1, wait, same⟩ := reaches_rx_timeout csrs c at0 keeps base empty
      obtain ⟨m', start, there'⟩ := reaches_start csrs c at0 frees (keeps.at _ _)
        (holds.of_sameBut same (by decide))
      refine ⟨m', wait.trans start, ?_⟩
      have step : s.boot.step none = s.boot.start := Boot.step_none receives
      have sends : s.boot.start.tx ≠ s.boot.tx := by simp [Boot.start, Boot.uartTxByte]
      simp only [step, if_neg sends]
      exact there'
    · rw [call] at sound' ⊢
      obtain ⟨r1, wait, x10, same⟩ := reaches_rx_byte csrs c at0 keeps base ra less empty ready
      let b : Boot := { s.boot with x10 := (uart (s.loads + k + 1)).data.setWidth 32 }
      have step : s.boot.step (some (uart (s.loads + k + 1)).data) = b.resume := by
        rw [Boot.step, if_pos receives]
      have kept := holds.of_sameBut same (by decide)
      have soundB : Sound code b := by
        refine ⟨sound.bootloader, fun inside => ?_⟩
        obtain ⟨whole, sum, words, more, dest⟩ := sound.counts inside
        exact ⟨whole, sum, words, more, dest⟩
      simp only [step] at sound' ⊢
      obtain ⟨m', go, there'⟩ := reaches_resume csrs c at0 (b := b) (n := s.loads + k + 2) frees
        soundB sound' receives
        ⟨kept.x20, kept.x21, kept.x22, kept.x23, kept.x24⟩ ((same 3 (by decide)).trans base) x10
      exact ⟨m', wait.trans go, there'⟩

end Segments

section Runs

/-- The words of the image in the first words of the BRAM. -/
def Installed (code : BramAddr → Word) : Prop :=
  ∀ k (inside : k < words.length), code (BitVec.ofNat 12 k) = words[k]

private theorem codeAt_installed {code : BramAddr → Word} (installed : Installed code)
    (uart : ℕ → Answer) :
    CodeAt (bootBus uart) 0 program (Keeps code) where
  aligned := rfl
  decode := by
    intro m keeps k i get
    have entry := congrArg (fun l => l[k]?) decode_words
    simp only [List.getElem?_map, get, Option.map_some] at entry
    obtain ⟨w, word, here⟩ := Option.map_eq_some_iff.mp entry
    obtain ⟨inside, same⟩ := List.getElem?_eq_some_iff.mp word
    have few : k < 63 := inside
    have index : wordIndex (addr 0 k) = BitVec.ofNat 12 k := by
      have zero : addr 0 k = BitVec.ofNat 32 (4 * k) := BitVec.zero_add _
      rw [zero]
      exact Transfer.wordIndex_word k
    change decode (m.mem (wordIndex (addr 0 k))) = some i
    rw [index, keeps _ (by rw [BitVec.toNat_ofNat, bootWords]; omega), installed k inside, same,
      here]

/-- The bootloader's model, with the registers as the machine finds them. -/
def bootOf (code : BramAddr → Word) (r : Regs) : Boot where
  label := .size0
  x10 := 0
  x20 := r.read 20#5
  x21 := r.read 21#5
  x22 := r.read 22#5
  x23 := r.read 23#5
  x24 := r.read 24#5
  mem := code
  tx := []

/-- Whatever the UART answers, as long as it is never busy for good and every size header it sends
fits the program region: the machine code gets from reset to every call of the session, with the
memory, the registers and the bytes sent of the model after the results that the UART gave. -/
theorem machine_code_refines_model {σ : Type} (csrs : CsrSpace σ) (c : σ) (uart : ℕ → Answer)
    (wait : ℕ → ℕ) (frees : Frees uart wait) (code : BramAddr → Word) (installed : Installed code)
    (r : Regs) (j : ℕ)
    (fits : ∀ size, Reads (bootOf code r) (session uart wait (bootOf code r) j).results size →
      Fits size) :
    ∃ m, Reaches csrs (bootBus uart) (place 0 0 r c ⟨code, 0, []⟩) m ∧
      At c ((bootOf code r).start.run (session uart wait (bootOf code r) j).results)
        (session uart wait (bootOf code r) j).loads m := by
  have at0 := codeAt_installed installed uart
  have sound : ∀ i ≤ j, Sound code (session uart wait (bootOf code r) i).boot := by
    intro i le
    rw [session_boot]
    exact sound_run fun size reads =>
      fits size (reads_of_isPrefix (session_isPrefix uart wait _ le) reads)
  have reached : ∀ i ≤ j, ∃ m, Reaches csrs (bootBus uart) (place 0 0 r c ⟨code, 0, []⟩) m ∧
      At c (session uart wait (bootOf code r) i).boot
        (session uart wait (bootOf code r) i).loads m := by
    intro i le
    induction i with
    | zero =>
      exact reaches_start csrs c at0 (b := bootOf code r) frees (fun _ _ => rfl)
        ⟨rfl, rfl, rfl, rfl, rfl⟩
    | succ i ih =>
      obtain ⟨m, before, there⟩ := ih (by omega)
      obtain ⟨m', next, there'⟩ := reaches_next csrs c at0 frees there (sound i (by omega))
        (sound (i + 1) le)
      exact ⟨m', before.trans next, there'⟩
  rw [← session_boot]
  exact reached j le_rfl

/-- The contents of `bootloader.mif`. -/
def bootImage : BramAddr → Word := fun a => words.getD a.toNat 0

theorem installed_bootImage : Installed bootImage := by
  intro k inside
  have few : k < 63 := inside
  have index : (BitVec.ofNat 12 k).toNat = k := by
    rw [BitVec.toNat_ofNat]
    omega
  rw [bootImage, index, List.getD_eq_getElem _ _ inside]

/-- A UART that is busy for two polls, receives nothing for a whole timeout, is busy for one poll
more and then has a byte at every other load. -/
def slowUart (n : ℕ) : Answer where
  busy := decide (n < 2 ∨ n = 2000003)
  done := decide (2000003 ≤ n)
  data := [0x04, 0x00, 0x00, 0x00, 0x6F, 0x00, 0x00, 0x00, 0x6F].getD ((n - 2000005) / 2) 0

def slowWait (n : ℕ) : ℕ := if n < 2 then 2 - n else if n = 2000003 then 1 else 0

private theorem slowUart_frees : Frees slowUart slowWait := by
  constructor
  · intro n j less
    simp only [slowWait] at less
    simp only [slowUart, decide_eq_true_eq]
    split_ifs at less <;> omega
  · intro n
    refine decide_eq_false ?_
    simp only [slowWait]
    split_ifs <;> omega

/-- What the calls return: a timeout, a size of 4, one word and its checksum. -/
def slowResults : List (Option Byte) :=
  none :: [0x04, 0x00, 0x00, 0x00, 0x6F, 0x00, 0x00, 0x00, 0x6F].map some

private theorem slowUart_fits {size : Word}
    (reads : Reads (bootOf bootImage ⟨fun _ => 0, rfl⟩) slowResults size) : Fits size := by
  obtain ⟨before, after, split, waiting⟩ := reads
  have length : 10 = before.length + (4 + after.length) := by
    simpa [slowResults] using congrArg List.length split
  have front : slowResults.take before.length = before := by rw [split, List.take_left]
  have header : (slowResults.drop before.length).take 4 = (wordBytes size).map some := by
    rw [split, List.drop_left, List.take_left' (by simp)]
  have later : ∀ k < 7, 1 < k → ((bootOf bootImage ⟨fun _ => 0, rfl⟩).start.run
      (slowResults.take k)).label ≠ .size0 := by decide +kernel
  have first : before.length = 1 := by
    rcases Nat.lt_trichotomy before.length 1 with none | one | more
    · rw [show before.length = 0 by omega] at header
      exact absurd (congrArg List.head? header) (by simp [slowResults, wordBytes])
    · exact one
    · rw [← front] at waiting
      exact absurd waiting (later _ (by omega) more)
  rw [first] at header
  have size4 : size = 4 := by
    refine wordBytes_inj (List.map_injective_iff.mpr (Option.some_injective Byte) ?_)
    rw [← header]
    decide
  rw [size4]
  exact ⟨dvd_refl 4, by decide⟩

/-- A transmitter that lets the loader wait, a receiver that lets it start over, and a program of
one word. -/
theorem machine_code_refines_model_word :
    ∃ m, Reaches csrSpace (bootBus slowUart)
      (place 0 0 ⟨fun _ => 0, rfl⟩ ⟨0, 0, 0, 0, 0, 0, 0, 0⟩ ⟨bootImage, 0, []⟩) m ∧
      At ⟨0, 0, 0, 0, 0, 0, 0, 0⟩
        ((bootOf bootImage ⟨fun _ => 0, rfl⟩).start.run slowResults) 2000024 m := by
  let boot := bootOf bootImage ⟨fun _ => 0, rfl⟩
  have first : session slowUart slowWait boot 1 =
      { boot := boot.start.step none, loads := 2000005, results := [none] } := by
    have call : rxByte slowUart 2000000 3 = (none, 2000003) := by
      refine rxByte_timeout fun j less => ?_
      simp only [slowUart, decide_eq_false_iff_not]
      omega
    change Session.next slowUart slowWait ⟨boot.start, 3, []⟩ = _
    rw [Session.next, if_pos (show boot.start.label.receives = true from rfl)]
    simp only [call]
    rfl
  have session' := session_add slowUart slowWait boot 1 9
  rw [first] at session'
  have results : (session slowUart slowWait boot (1 + 9)).results = slowResults := by
    rw [session']
    decide +kernel
  have loads : (session slowUart slowWait boot (1 + 9)).loads = 2000024 := by
    rw [session']
    decide +kernel
  have reached := machine_code_refines_model csrSpace ⟨0, 0, 0, 0, 0, 0, 0, 0⟩ slowUart slowWait
    slowUart_frees bootImage installed_bootImage ⟨fun _ => 0, rfl⟩ (1 + 9) fun size reads =>
      slowUart_fits (results ▸ reads)
  rw [results, loads] at reached
  exact reached

end Runs

end RiscvSoc.Firmware.BootRefinement
