/- GID: RiscvSoc/Isa/Rv32Hart
   generality: G
   utility: library
   digest: A hart of RV32I, its instructions one at a time, and the machine it makes with a bus. -/

import RiscvSoc.Isa.Rv32Instr

set_option autoImplicit false
set_option relaxedAutoImplicit false

namespace RiscvSoc.Isa.Rv32Hart

open RiscvSoc.Isa.Rv32Alu
open RiscvSoc.Isa.Rv32Instr
open RiscvSoc.Memory.ByteMemory

section Registers

/-- A register file; x0 is zero. -/
@[ext] structure Regs where
  read : BitVec 5 → BitVec 32
  zero : read 0#5 = 0#32

namespace Regs

/-- A write to x0 is dropped. -/
def set (r : Regs) (i : BitVec 5) (v : BitVec 32) : Regs where
  read := fun j => if j = i ∧ i ≠ 0#5 then v else r.read j
  zero := by
    rw [if_neg fun same => same.2 same.1.symm]
    exact r.zero

attribute [simp] Regs.zero

variable {r : Regs} {i j : BitVec 5} {v : BitVec 32}

@[simp] theorem set_read_same (nonzero : i ≠ 0#5) : (r.set i v).read i = v :=
  if_pos ⟨rfl, nonzero⟩

@[simp] theorem set_read_other (other : j ≠ i) : (r.set i v).read j = r.read j :=
  if_neg fun same => other same.1

@[simp] theorem set_zero : r.set 0#5 v = r := by
  apply Regs.ext
  funext j
  exact if_neg fun same => same.2 rfl

end Regs

end Registers

section Hart

/-- The CSR space of a hart: what an address reads and what a write to it makes. -/
structure CsrSpace (σ : Type) where
  read : σ → BitVec 12 → BitVec 32
  write : σ → BitVec 12 → BitVec 32 → σ

@[ext] structure Hart (σ : Type) where
  pc : BitVec 32
  regs : Regs
  csr : σ

variable {σ : Type}

/-- On to the next instruction, with `v` in rd. -/
def Hart.write (h : Hart σ) (rd : BitVec 5) (v : BitVec 32) : Hart σ :=
  { h with pc := h.pc + 4, regs := h.regs.set rd v }

/-- The operand of a CSR instruction. -/
def Regs.source (r : Regs) (src : CsrSource) : BitVec 32 :=
  match src with
  | .reg rs1 => r.read rs1
  | .imm zimm => zimm.setWidth 32

private theorem source_of_not_writes {op : CsrOp} {src : CsrSource} {r : Regs}
    (idle : op.writes src = false) : op ≠ .rw ∧ r.source src = 0 := by
  cases src with
  | reg rs1 =>
    cases op <;> simp_all [CsrOp.writes, Regs.source]
  | imm zimm =>
    cases op <;> simp_all [CsrOp.writes, Regs.source]

/-- Setting or clearing no bits gives the old value back. -/
theorem value_of_not_writes {op : CsrOp} {src : CsrSource} {r : Regs}
    (idle : op.writes src = false) (old : BitVec 32) : op.value old (r.source src) = old := by
  obtain ⟨modify, zero⟩ := source_of_not_writes (r := r) idle
  rw [zero]
  cases op with
  | rw => exact absurd rfl modify
  | rs => exact BitVec.or_zero
  | rc => exact BitVec.and_allOnes

/-- The memory access of an instruction, if it makes one. -/
def Hart.access (h : Hart σ) (i : Instr) : Option (Access 30) :=
  match i with
  | .load op _ rs1 imm => some (.load op (h.regs.read rs1 + imm.signExtend 32))
  | .store op rs1 rs2 imm =>
    some (.store op (h.regs.read rs1 + imm.signExtend 32) (h.regs.read rs2))
  | _ => none

/-- The hart after an instruction, given what its load returns. -/
def Hart.exec (csrs : CsrSpace σ) (h : Hart σ) (i : Instr) (loaded : BitVec 32) : Hart σ :=
  match i with
  | .lui rd imm => h.write rd (imm ++ 0#12)
  | .auipc rd imm => h.write rd (h.pc + (imm ++ 0#12))
  | .jal rd offset =>
    { h with pc := h.pc + (offset ++ 0#1).signExtend 32, regs := h.regs.set rd (h.pc + 4) }
  | .jalr rd rs1 imm =>
    { h with
      pc := (h.regs.read rs1 + imm.signExtend 32) &&& ~~~1
      regs := h.regs.set rd (h.pc + 4) }
  | .branch op rs1 rs2 offset =>
    { h with
      pc := if op.taken (h.regs.read rs1) (h.regs.read rs2) then
          h.pc + (offset ++ 0#1).signExtend 32
        else h.pc + 4 }
  | .load _ rd _ _ => h.write rd loaded
  | .store _ _ _ _ => { h with pc := h.pc + 4 }
  | .imm op rd rs1 imm => h.write rd (op.reg.value (h.regs.read rs1) (imm.signExtend 32))
  | .shift op rd rs1 shamt => h.write rd (op.reg.value (h.regs.read rs1) (shamt.setWidth 32))
  | .reg op rd rs1 rs2 => h.write rd (op.value (h.regs.read rs1) (h.regs.read rs2))
  | .csr op rd src addr =>
    { pc := h.pc + 4
      regs := h.regs.set rd (csrs.read h.csr addr)
      csr := if op.writes src then
          csrs.write h.csr addr (op.value (csrs.read h.csr addr) (h.regs.source src))
        else h.csr }

end Hart

section Machine

/-- What a hart is connected to. A load may have an effect, too. -/
structure Bus (μ : Type) where
  fetch : μ → BitVec 32 → BitVec 32
  loaded : μ → LoadOp → BitVec 32 → BitVec 32
  access : μ → Access 30 → μ

@[ext] structure Machine (σ μ : Type) where
  hart : Hart σ
  mem : μ

variable {σ μ : Type} (csrs : CsrSpace σ) (bus : Bus μ)

def Bus.result (m : μ) : Option (Access 30) → BitVec 32
  | some (.load op addr) => bus.loaded m op addr
  | _ => 0

def Bus.after (m : μ) : Option (Access 30) → μ
  | some a => bus.access m a
  | none => m

instance (a : Access 30) : Decidable a.Aligned :=
  match a with
  | .load op b => inferInstanceAs (Decidable (b.toNat % op.size = 0))
  | .store op b _ => inferInstanceAs (Decidable (b.toNat % op.size = 0))

namespace Machine

/-- The machine after the instruction `i`. -/
def exec (i : Instr) (s : Machine σ μ) : Machine σ μ where
  hart := s.hart.exec csrs i (bus.result s.mem (s.hart.access i))
  mem := bus.after s.mem (s.hart.access i)

/-- One instruction. A word that is no instruction, a misaligned access and a misaligned jump
target are exceptions, which end the run. -/
def step (s : Machine σ μ) : Option (Machine σ μ) :=
  match decode (bus.fetch s.mem s.hart.pc) with
  | none => none
  | some i =>
    if (∀ a ∈ s.hart.access i, a.Aligned) ∧ (s.exec csrs bus i).hart.pc.toNat % 4 = 0 then
      some (s.exec csrs bus i)
    else none

/-- The machine after `n` instructions. -/
def after : ℕ → Machine σ μ → Option (Machine σ μ)
  | 0, s => some s
  | n + 1, s => (after n s).bind (step csrs bus)

variable {csrs bus} {s t : Machine σ μ}

/-- What a step stands for. -/
theorem step_cases (stepped : s.step csrs bus = some t) :
    ∃ i, decode (bus.fetch s.mem s.hart.pc) = some i ∧ (∀ a ∈ s.hart.access i, a.Aligned) ∧
      t = s.exec csrs bus i ∧ t.hart.pc.toNat % 4 = 0 := by
  unfold step at stepped
  split at stepped
  · exact absurd stepped (by simp)
  · rename_i i decoded
    split_ifs at stepped with legal
    obtain rfl := Option.some_inj.mp stepped
    exact ⟨i, decoded, legal.1, rfl, legal.2⟩

theorem step_eq {i : Instr} (decoded : decode (bus.fetch s.mem s.hart.pc) = some i)
    (aligned : ∀ a ∈ s.hart.access i, a.Aligned)
    (target : (s.exec csrs bus i).hart.pc.toNat % 4 = 0) :
    s.step csrs bus = some (s.exec csrs bus i) := by
  rw [step, decoded]
  exact if_pos ⟨aligned, target⟩

end Machine

end Machine

end RiscvSoc.Isa.Rv32Hart
