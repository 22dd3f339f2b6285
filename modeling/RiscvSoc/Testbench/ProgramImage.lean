/- GID: RiscvSoc/Testbench/ProgramImage
   generality: G
   utility: support
   digest: The memory that a program image fills, and what holds of every word of it. -/

import RiscvSoc.Isa.Rv32Program
import RiscvSoc.Testbench.IsaRun

set_option autoImplicit false
set_option relaxedAutoImplicit false

namespace RiscvSoc.Testbench.ProgramImage

open RiscvSoc.Cpu.Decoder (Word isEcall isEbreak isMret isCsr csrAddr)
open RiscvSoc.Cpu.Datapath (CsrFile aMip)
open RiscvSoc.Cpu.IsaStep
open RiscvSoc.Testbench.TbDiff
open RiscvSoc.Testbench.Refinement
open RiscvSoc.Testbench.IsaRun
open RiscvSoc.Isa.Rv32Instr
open RiscvSoc.Isa.Rv32Hart
open RiscvSoc.Isa.Rv32Program
open RiscvSoc.Memory.ByteMemory

/-- The memory a `.mif` file fills: its words and zeros behind them. -/
def image (ws : List Word) : Memory := fun w => ws.getD w.toNat 0

private theorem image_all {ws : List Word} {p : Word → Prop} (zero : p 0) (all : ∀ w ∈ ws, p w)
    (a : BitVec 30) : p (image ws a) := by
  rw [image, List.getD_eq_getElem?_getD]
  cases found : ws[a.toNat]? with
  | none => exact zero
  | some w => exact all w (List.mem_of_getElem? found)

private theorem image_addr {ws : List Word} (small : ws.length ≤ 2 ^ 30) {k : ℕ}
    (inside : k < ws.length) :
    image ws (wordIndex (addr 0 k)) = ws[k] := by
  have index : (wordIndex (addr 0 k)).toNat = k := by
    have zero : addr 0 k = BitVec.ofNat 32 (4 * k) := BitVec.zero_add _
    rw [wordIndex, zero, BitVec.extractLsb'_toNat, BitVec.toNat_ofNat, Nat.shiftRight_eq_div_pow]
    omega
  rw [image, index, List.getD_eq_getElem?_getD, List.getElem?_eq_getElem inside]
  rfl

/-- A program whose words decode is in place in their image. -/
theorem codeAt_image {ws : List Word} {prog : List Instr} (small : ws.length ≤ 2 ^ 30)
    (decoded : ws.map decode = prog.map some) :
    CodeAt (benchBus (image ws)) 0 prog fun _ => True where
  aligned := rfl
  decode := by
    intro m _ k i get
    have entry := congrArg (fun l => l[k]?) decoded
    simp only [List.getElem?_map, get, Option.map_some] at entry
    obtain ⟨w, word, here⟩ := Option.map_eq_some_iff.mp entry
    obtain ⟨inside, same⟩ := List.getElem?_eq_some_iff.mp word
    change decode (image ws (wordIndex (addr 0 k))) = some i
    rw [image_addr small inside, same, here]

def quiet (w : Word) : Bool := !isEcall w && !isEbreak w && !isMret w && !isCsr w

theorem trapFree_image {ws : List Word} (all : ws.all quiet = true) : TrapFree (image ws) := by
  have each : ∀ a, quiet (image ws a) = true :=
    image_all (p := fun w => quiet w = true) rfl (List.all_eq_true.mp all)
  constructor
  · intro a
    have here := each a
    simp only [quiet, Bool.and_eq_true, Bool.not_eq_true'] at here
    exact ⟨here.1.1.1, here.1.1.2, here.1.2⟩
  · intro a csr
    have here := each a
    simp [quiet, csr] at here

def isJalr : Instr → Bool
  | .jalr _ _ _ => true
  | _ => false

/-- A program without JALR never jumps to an odd address. -/
theorem even_image {ws : List Word} {prog : List Instr} (decoded : ws.map decode = prog.map some)
    (none : prog.any isJalr = false) (s : Machine CsrFile (ByteMem 30)) :
    oddNext (image ws) s = false := by
  refine image_all (p := fun w => ∀ h, (decode w).any (oddJump h) = false) (fun _ => rfl) ?_ _ _
  intro w inside h
  have entry : decode w ∈ prog.map some := decoded ▸ List.mem_map_of_mem inside
  obtain ⟨i, member, here⟩ := List.mem_map.mp entry
  have other : isJalr i = false := by simpa using List.any_eq_false.mp none i member
  rw [← here]
  cases i with
  | jalr => exact absurd other Bool.true_eq_false_eq_False
  | lui | auipc | jal | branch | load | store | imm | shift | reg | csr => rfl

end RiscvSoc.Testbench.ProgramImage
