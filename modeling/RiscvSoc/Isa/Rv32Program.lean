/- GID: RiscvSoc/Isa/Rv32Program
   generality: G
   utility: library
   digest: Rules for machine code: what execution reaches from an instruction, a straight run of
   them, or a loop. -/

import RiscvSoc.Isa.Rv32Hart
import Mathlib.Logic.Relation

set_option autoImplicit false
set_option relaxedAutoImplicit false

namespace RiscvSoc.Isa.Rv32Program

open RiscvSoc.Isa.Rv32Alu
open RiscvSoc.Isa.Rv32Instr
open RiscvSoc.Isa.Rv32Hart
open RiscvSoc.Memory.ByteMemory

variable {σ μ : Type} (csrs : CsrSpace σ) (bus : Bus μ)

section Reaches

/-- Execution gets from one state to another. -/
def Reaches : Machine σ μ → Machine σ μ → Prop :=
  Relation.ReflTransGen fun s t => s.step csrs bus = some t

variable {csrs bus} {s t u : Machine σ μ}

theorem Reaches.refl : Reaches csrs bus s s := Relation.ReflTransGen.refl

theorem Reaches.trans (st : Reaches csrs bus s t) (tu : Reaches csrs bus t u) :
    Reaches csrs bus s u := Relation.ReflTransGen.trans st tu

private theorem Reaches.step (st : s.step csrs bus = some t) : Reaches csrs bus s t :=
  Relation.ReflTransGen.single st

/-- What is reached is reached after some number of instructions. -/
theorem Reaches.after (st : Reaches csrs bus s t) : ∃ n, s.after csrs bus n = some t := by
  induction st with
  | refl => exact ⟨0, rfl⟩
  | tail _ last ih =>
    obtain ⟨n, before⟩ := ih
    refine ⟨n + 1, ?_⟩
    change (s.after csrs bus n).bind _ = _
    rw [before]
    exact last

/-- A loop whose body takes every state of one count to a state of the next. -/
theorem Reaches.loop {P : ℕ → Machine σ μ → Prop} {n : ℕ}
    (body : ∀ k < n, ∀ s, P k s → ∃ t, Reaches csrs bus s t ∧ P (k + 1) t) (first : P 0 s) :
    ∃ t, Reaches csrs bus s t ∧ P n t := by
  induction n with
  | zero => exact ⟨s, Reaches.refl, first⟩
  | succ n ih =>
    obtain ⟨t, before, here⟩ := ih fun k small => body k (by omega)
    obtain ⟨u, last, there⟩ := body n (by omega) t here
    exact ⟨u, before.trans last, there⟩

/-- Once in a loop of one instruction, there for good. -/
theorem after_self (self : t.step csrs bus = some t) {n : ℕ} (here : s.after csrs bus n = some t) :
    ∀ k, s.after csrs bus (n + k) = some t := by
  intro k
  induction k with
  | zero => exact here
  | succ k ih =>
    change (s.after csrs bus (n + k)).bind _ = _
    rw [ih]
    exact self

end Reaches

/-- On small numbers the signed order is the order of the numbers. -/
theorem taken_blt {a b : ℕ} (smallA : a < 2 ^ 31) (smallB : b < 2 ^ 31) :
    BranchOp.taken .blt (BitVec.ofNat 32 a) (BitVec.ofNat 32 b) = decide (a < b) := by
  have toInt : ∀ n < 2 ^ 31, (BitVec.ofNat 32 n).toInt = n := by
    intro n small
    rw [BitVec.toInt_eq_toNat_of_lt, BitVec.toNat_ofNat, Nat.mod_eq_of_lt (by omega)]
    rw [BitVec.toNat_ofNat]
    omega
  rw [BranchOp.taken, toInt a smallA, toInt b smallB]
  simp

section Code

/-- The address of an instruction of a program that starts at `base`. -/
def addr (base : BitVec 32) (k : ℕ) : BitVec 32 := base + BitVec.ofNat 32 (4 * k)

/-- In every memory of `I` the program is at `base`. -/
structure CodeAt (base : BitVec 32) (prog : List Instr) (I : μ → Prop) : Prop where
  aligned : base.toNat % 4 = 0
  decode : ∀ m, I m → ∀ k i, prog[k]? = some i → decode (bus.fetch m (addr base k)) = some i

/-- The machine at instruction `k`. -/
def place (base : BitVec 32) (k : ℕ) (r : Regs) (c : σ) (m : μ) : Machine σ μ where
  hart := { pc := addr base k, regs := r, csr := c }
  mem := m

theorem addr_succ (base : BitVec 32) (k : ℕ) : addr base k + 4 = addr base (k + 1) := by
  apply BitVec.eq_of_toNat_eq
  have four : (4 : BitVec 32).toNat = 4 := rfl
  simp only [addr, BitVec.toNat_add, BitVec.toNat_ofNat, four]
  omega

theorem addr_aligned {base : BitVec 32} (aligned : base.toNat % 4 = 0) (k : ℕ) :
    (addr base k).toNat % 4 = 0 := by
  simp only [addr, BitVec.toNat_add, BitVec.toNat_ofNat]
  omega

/-- Returning to an instruction clears no bit. -/
theorem addr_even {base : BitVec 32} (aligned : base.toNat % 4 = 0) (k : ℕ) :
    addr base k &&& ~~~1#32 = addr base k := by
  have even : (addr base k).getLsbD 0 = false := by
    have whole := addr_aligned aligned k
    rw [BitVec.getLsbD, Nat.testBit_zero, decide_eq_false_iff_not]
    omega
  apply BitVec.eq_of_getLsbD_eq
  intro i hi
  rw [BitVec.getLsbD_and, BitVec.getLsbD_not, BitVec.getLsbD_one]
  rcases Nat.eq_zero_or_pos i with rfl | pos
  · rw [even]
    rfl
  · simp [hi, show i ≠ 0 by omega]

/-- The instructions that compute a register from others, and what they do. -/
def computes : Instr → Bool
  | .lui _ _ | .imm _ _ _ _ | .shift _ _ _ _ | .reg _ _ _ _ => true
  | _ => false

def compute (r : Regs) : Instr → Regs
  | .lui rd imm => r.set rd (imm ++ 0#12)
  | .imm op rd rs1 imm => r.set rd (op.reg.value (r.read rs1) (imm.signExtend 32))
  | .shift op rd rs1 shamt => r.set rd (op.reg.value (r.read rs1) (shamt.setWidth 32))
  | .reg op rd rs1 rs2 => r.set rd (op.value (r.read rs1) (r.read rs2))
  | _ => r

private theorem exec_compute {i : Instr} (pure : computes i = true) (base : BitVec 32) (k : ℕ)
    (r : Regs)
    (c : σ) (m : μ) :
    (place base k r c m).hart.access i = none ∧
      (place base k r c m).exec csrs bus i = place base (k + 1) (compute r i) c m := by
  cases i with
  | lui | imm | shift | reg =>
    refine ⟨rfl, Machine.ext (Hart.ext ?_ rfl rfl) rfl⟩
    exact addr_succ base k
  | auipc | jal | jalr | branch | load | store | csr => exact absurd pure Bool.false_ne_true

variable {csrs bus} {base : BitVec 32} {prog : List Instr} {I : μ → Prop}
variable {k l : ℕ} {r : Regs} {c : σ} {m : μ}
variable (code : CodeAt bus base prog I) (inv : I m)
include code inv

private theorem step_exec {i : Instr} {r' : Regs} {c' : σ} {m' : μ} (get : prog[k]? = some i)
    (aligned : ∀ a ∈ (place base k r c m).hart.access i, a.Aligned)
    (next : (place base k r c m).exec csrs bus i = place base l r' c' m') :
    (place base k r c m).step csrs bus = some (place base l r' c' m') := by
  rw [← next]
  refine Machine.step_eq (code.decode m inv k i get) aligned ?_
  rw [next]
  exact addr_aligned code.aligned l

/-- A straight run of computations. -/
theorem reaches_block (block : List Instr) (get : block <+: prog.drop k)
    (pure : block.all computes = true) :
    Reaches csrs bus (place base k r c m)
      (place base (k + block.length) (block.foldl compute r) c m) := by
  induction block generalizing k r with
  | nil => exact Reaches.refl
  | cons i block ih =>
    obtain ⟨rest, split⟩ := get
    have first : prog[k]? = some i := by
      rw [← Nat.add_zero k, ← List.getElem?_drop, ← split]
      rfl
    have tail : block <+: prog.drop (k + 1) := by
      rw [← List.drop_drop, ← split]
      exact ⟨rest, rfl⟩
    simp only [List.all_cons, Bool.and_eq_true] at pure
    obtain ⟨access, next⟩ := exec_compute csrs bus pure.1 base k r c m
    have one : Reaches csrs bus (place base k r c m) (place base (k + 1) (compute r i) c m) := by
      refine Reaches.step (step_exec code inv first ?_ next)
      rw [access]
      exact fun _ none => absurd none (Option.not_mem_none _)
    have all := one.trans (ih tail pure.2)
    rwa [Nat.add_assoc, Nat.add_comm 1] at all

variable {rd rs1 rs2 : BitVec 5}

private theorem reaches_jump {i : Instr} {r' : Regs} (get : prog[k]? = some i)
    (access : (place base k r c m).hart.access i = none)
    (hart : ∀ v, (place base k r c m).hart.exec csrs i v = ⟨addr base l, r', c⟩) :
    Reaches csrs bus (place base k r c m) (place base l r' c m) := by
  refine Reaches.step (step_exec code inv get ?_ ?_)
  · rw [access]
    exact fun _ none => absurd none (Option.not_mem_none _)
  · apply Machine.ext
    · exact hart _
    · change bus.after m ((place base k r c m).hart.access i) = m
      rw [access]
      rfl

theorem reaches_taken {op : BranchOp} {offset : BitVec 12}
    (get : prog[k]? = some (.branch op rs1 rs2 offset))
    (taken : op.taken (r.read rs1) (r.read rs2) = true)
    (target : addr base k + (offset ++ 0#1).signExtend 32 = addr base l) :
    Reaches csrs bus (place base k r c m) (place base l r c m) := by
  refine reaches_jump code inv get rfl fun _ => Hart.ext ?_ rfl rfl
  rw [← target]
  exact if_pos taken

theorem reaches_not_taken {op : BranchOp} {offset : BitVec 12}
    (get : prog[k]? = some (.branch op rs1 rs2 offset))
    (taken : op.taken (r.read rs1) (r.read rs2) = false) :
    Reaches csrs bus (place base k r c m) (place base (k + 1) r c m) := by
  refine reaches_jump code inv get rfl fun _ => Hart.ext ?_ rfl rfl
  rw [← addr_succ]
  exact if_neg (Bool.eq_false_iff.mp taken)

theorem reaches_jal {offset : BitVec 20} (get : prog[k]? = some (.jal rd offset))
    (target : addr base k + (offset ++ 0#1).signExtend 32 = addr base l) :
    Reaches csrs bus (place base k r c m) (place base l (r.set rd (addr base (k + 1))) c m) := by
  refine reaches_jump code inv get rfl fun _ => Hart.ext target ?_ rfl
  rw [← addr_succ]
  rfl

/-- A jump to itself, without a link. -/
theorem step_self (get : prog[k]? = some (.jal 0 0)) :
    (place base k r c m).step csrs bus = some (place base k r c m) := by
  refine step_exec code inv get (fun _ none => absurd none (Option.not_mem_none _)) ?_
  exact Machine.ext (Hart.ext (BitVec.add_zero _) Regs.set_zero rfl) rfl

theorem reaches_jalr {imm : BitVec 12} (get : prog[k]? = some (.jalr rd rs1 imm))
    (target : (r.read rs1 + imm.signExtend 32) &&& ~~~1 = addr base l) :
    Reaches csrs bus (place base k r c m) (place base l (r.set rd (addr base (k + 1))) c m) := by
  refine reaches_jump code inv get rfl fun _ => Hart.ext target ?_ rfl
  rw [← addr_succ]
  rfl

theorem reaches_load {op : LoadOp} {imm : BitVec 12} {a : BitVec 32}
    (get : prog[k]? = some (.load op rd rs1 imm)) (address : r.read rs1 + imm.signExtend 32 = a)
    (aligned : a.toNat % op.size = 0) :
    Reaches csrs bus (place base k r c m)
      (place base (k + 1) (r.set rd (bus.loaded m op a)) c (bus.access m (.load op a))) := by
  subst address
  refine Reaches.step (step_exec code inv get ?_
    (Machine.ext (Hart.ext (addr_succ base k) rfl rfl) rfl))
  rintro _ ⟨⟩
  exact aligned

theorem reaches_store {op : StoreOp} {imm : BitVec 12} {a : BitVec 32}
    (get : prog[k]? = some (.store op rs1 rs2 imm)) (address : r.read rs1 + imm.signExtend 32 = a)
    (aligned : a.toNat % op.size = 0) :
    Reaches csrs bus (place base k r c m)
      (place base (k + 1) r c (bus.access m (.store op a (r.read rs2)))) := by
  subst address
  refine Reaches.step (step_exec code inv get ?_
    (Machine.ext (Hart.ext (addr_succ base k) rfl rfl) rfl))
  rintro _ ⟨⟩
  exact aligned

end Code

section Watch

/-- The bus that also remembers whether every access so far was among `ok`. -/
def watch (ok : Access 30 → Bool) : Bus (μ × Bool) where
  fetch := fun m a => bus.fetch m.1 a
  loaded := fun m o a => bus.loaded m.1 o a
  access := fun m x => (bus.access m.1 x, m.2 && ok x)

/-- The machine without that memory. -/
def unwatch (s : Machine σ (μ × Bool)) : Machine σ μ where
  hart := s.hart
  mem := s.mem.1

/-- Whatever the instruction at pc accesses is among `ok`. -/
def Proper (ok : Access 30 → Bool) (s : Machine σ μ) : Prop :=
  ∀ i, decode (bus.fetch s.mem s.hart.pc) = some i → ∀ x ∈ s.hart.access i, ok x = true

variable {csrs bus} {ok : Access 30 → Bool} {s t : Machine σ (μ × Bool)}

theorem CodeAt.watched {base : BitVec 32} {prog : List Instr} {I : μ → Prop}
    (code : CodeAt bus base prog I) : CodeAt (watch bus ok) base prog fun m => I m.1 where
  aligned := code.aligned
  decode := fun m inv k i get => code.decode m.1 inv k i get

private theorem step_watch (stepped : s.step csrs (watch bus ok) = some t)
    (clean : t.mem.2 = true) :
    (unwatch s).step csrs bus = some (unwatch t) ∧ s.mem.2 = true ∧ Proper bus ok (unwatch s) := by
  obtain ⟨i, decoded, aligned, rfl, target⟩ := Machine.step_cases stepped
  have here : decode (bus.fetch (unwatch s).mem (unwatch s).hart.pc) = some i := decoded
  have same : unwatch (s.exec csrs (watch bus ok) i) = (unwatch s).exec csrs bus i := by
    unfold unwatch Machine.exec
    cases access : s.hart.access i with
    | none => rfl
    | some x => cases x <;> rfl
  have hart : (s.exec csrs (watch bus ok) i).hart = ((unwatch s).exec csrs bus i).hart :=
    congrArg Machine.hart same
  rw [hart] at target
  refine ⟨same ▸ Machine.step_eq here aligned target, ?_⟩
  simp only [Machine.exec] at clean
  cases access : s.hart.access i with
  | none =>
    rw [access] at clean
    refine ⟨clean, fun j get x mem => ?_⟩
    obtain rfl := Option.some_inj.mp (here.symm.trans get)
    exact absurd (access ▸ mem) (Option.not_mem_none x)
  | some y =>
    rw [access] at clean
    change (s.mem.2 && ok y) = true at clean
    rw [Bool.and_eq_true] at clean
    refine ⟨clean.1, fun j get x mem => ?_⟩
    obtain rfl := Option.some_inj.mp (here.symm.trans get)
    obtain rfl : y = x := Option.some_inj.mp (access.symm.trans mem)
    exact clean.2

/-- A watched run that ends clean was proper all along. -/
theorem after_watch {n : ℕ} (run : s.after csrs (watch bus ok) n = some t)
    (clean : t.mem.2 = true) : (unwatch s).after csrs bus n = some (unwatch t) ∧
      ∀ k < n, ∃ u, (unwatch s).after csrs bus k = some u ∧ Proper bus ok u := by
  induction n generalizing t with
  | zero =>
    obtain rfl := Option.some_inj.mp run
    exact ⟨rfl, fun k less => absurd less (Nat.not_lt_zero k)⟩
  | succ n ih =>
    obtain ⟨v, before, last⟩ := Option.bind_eq_some_iff.mp run
    obtain ⟨stepped, earlier, proper⟩ := step_watch last clean
    obtain ⟨reached, all⟩ := ih before earlier
    refine ⟨?_, fun k less => ?_⟩
    · change ((unwatch s).after csrs bus n).bind _ = _
      rw [reached]
      exact stepped
    · rcases Nat.lt_succ_iff_lt_or_eq.mp less with small | rfl
      · exact all k small
      · exact ⟨_, reached, proper⟩

/-- And so is one that is caught in a loop of one instruction. -/
theorem proper_of_loop {N : ℕ} (loop : ∀ j, s.after csrs (watch bus ok) (N + j) = some t)
    (clean : t.mem.2 = true) (k : ℕ) :
    ∃ u, (unwatch s).after csrs bus k = some u ∧ Proper bus ok u := by
  have late : N + (k + 1) = (k + 1) + N := Nat.add_comm _ _
  exact (after_watch (loop (k + 1)) clean).2 k (by omega)

end Watch

end RiscvSoc.Isa.Rv32Program
