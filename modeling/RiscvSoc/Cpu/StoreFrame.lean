/- GID: RiscvSoc/Cpu/StoreFrame
   generality: G
   utility: main
   digest: Which bytes a store of either core may change, aligned or not. -/

import RiscvSoc.Cpu.MemAccess

set_option autoImplicit false
set_option relaxedAutoImplicit false

namespace RiscvSoc.Cpu.StoreFrame

open RiscvSoc.Cpu.Decoder
open RiscvSoc.Cpu.DecoderFacts
open RiscvSoc.Cpu.Datapath
open RiscvSoc.Cpu.Pipeline
open RiscvSoc.Cpu.MemAccess
open RiscvSoc.Memory.ByteLanes
open RiscvSoc.Memory.ByteMemory
open RiscvSoc.Memory.DpRam

/-- None of the addresses a store of `op` at `a` covers selects the byte `c`. -/
def Outside (op : StoreOp) (a : Word) (c : BitVec 14) : Prop :=
  ∀ k < op.size, byteAddr (a + BitVec.ofNat 32 k) ≠ c

/-- A store that changes no byte outside the range it addresses. -/
def Frames (op : StoreOp) (a : Word) (m m' : ByteMem 12) : Prop :=
  ∀ c, Outside op a c → m' c = m c

/-- The bytes in front of `a` in its word are zero. -/
def LowBytesZero (a : Word) (m : ByteMem 12) : Prop :=
  ∀ c, wordAddr (n := 12) c = wordIndex a → c.toNat < (byteAddr a).toNat → m c = 0

variable {op : StoreOp} {a : Word} {c : BitVec 14}

private theorem byteAddr_add (a : Word) (k : ℕ) :
    (byteAddr (a + BitVec.ofNat 32 k)).toNat = ((byteAddr a).toNat + k) % 16384 := by
  simp only [byteAddr, BitVec.extractLsb'_toNat, Nat.shiftRight_zero, BitVec.toNat_add,
    BitVec.toNat_ofNat]
  omega

private theorem outside_of_lt (sameWord : wordAddr (n := 12) c = wordIndex a)
    (before : c.toNat < (byteAddr a).toNat) : Outside op a c := by
  intro k small same
  have bound := (byteAddr a).isLt
  have size : op.size ≤ 4 := by cases op <;> decide
  rw [← wordAddr_byteAddr, wordAddr_eq_iff] at sameWord
  have sum := byteAddr_add a k
  rw [same] at sum
  omega

private theorem Outside.not_mem (outside : Outside op a c) {k : ℕ} (small : k < op.size) :
    c.toNat ≠ (byteAddr a).toNat + k := by
  intro here
  have bound := c.isLt
  refine outside k small (BitVec.eq_of_toNat_eq ?_)
  rw [byteAddr_add, here]
  omega

private theorem storeMask_inside (narrow : op ≠ .sw) (off : BitVec 2) :
    ∀ k < 4, (storeMask (storeFlags op).isSb (storeFlags op).isSh (storeFlags op).isSw
      off).getLsbD k = true → off.toNat ≤ k ∧ k < off.toNat + op.size := by
  revert off
  cases op with
  | sb => decide
  | sh => decide
  | sw => exact absurd rfl narrow

private theorem storeMask_sw (off : BitVec 2) :
    ∀ k < 4, (storeMask (storeFlags .sw).isSb (storeFlags .sw).isSh (storeFlags .sw).isSw
      off).getLsbD k = true := by
  revert off
  decide

variable {e : Issue}

private theorem posedge_byte (s : Bram) (decoded : e.slot.Decoded) (store : IsStore op e.slot.instr)
    (c : BitVec 14) :
    bytes (n := 12) (s.posedge e.bramIn).mem c =
      if wordAddr (n := 12) c = wordIndex e.slot.addr ∧
          (storeMask (storeFlags op).isSb (storeFlags op).isSh (storeFlags op).isSw
            (e.slot.addr.extractLsb' 0 2)).getLsbD (byteLane (n := 12) c) = true then
        lane (e.slot.src2 <<< ((e.slot.addr.extractLsb' 0 2).toNat * 8)) (byteLane (n := 12) c)
      else bytes (n := 12) s.mem c := by
  obtain ⟨we, -, addr, wdata, byteena⟩ := port_store decoded store
  rw [← bytes_writeMasked_apply]
  simp [Bram.posedge, Issue.bramIn, we, addr, wdata, byteena, storeData]

private theorem lane_position (sameWord : wordAddr (n := 12) c = wordIndex a) :
    byteLane (n := 12) c + (byteAddr a).toNat = c.toNat + (a.extractLsb' 0 2).toNat := by
  rw [← wordAddr_byteAddr, wordAddr_eq_iff] at sameWord
  rw [← byteLane_byteAddr, byteLane_eq, byteLane_eq]
  omega

private theorem frames_narrow (s : Bram) (decoded : e.slot.Decoded)
    (store : IsStore op e.slot.instr)
    (narrow : op ≠ .sw) :
    Frames op e.slot.addr (bytes (n := 12) s.mem)
      (bytes (n := 12) (s.posedge e.bramIn).mem) := by
  intro c outside
  rw [posedge_byte s decoded store]
  apply if_neg
  rintro ⟨sameWord, masked⟩
  have covered := storeMask_inside narrow _ _ (byteLane_lt (n := 12) c) masked
  have position := lane_position sameWord
  have small : c.toNat - (byteAddr e.slot.addr).toNat < op.size := by omega
  exact outside.not_mem small (by omega)

private theorem posedge_sw_low (s : Bram) (decoded : e.slot.Decoded)
    (store : IsStore .sw e.slot.instr)
    (sameWord : wordAddr (n := 12) c = wordIndex e.slot.addr)
    (before : c.toNat < (byteAddr e.slot.addr).toNat) :
    bytes (n := 12) (s.posedge e.bramIn).mem c = 0 := by
  have masked := storeMask_sw (e.slot.addr.extractLsb' 0 2) _ (byteLane_lt (n := 12) c)
  have position := lane_position sameWord
  rw [posedge_byte s decoded store, if_pos ⟨sameWord, masked⟩]
  exact lane_shiftLeft_low _ (by omega)

/-- A store changes no byte outside the range it addresses exactly when it is no `sw` or the bytes
in front of its address in the word are zero already; at an aligned address there are none. -/
theorem store_frames_iff (s : Bram) (decoded : e.slot.Decoded)
    (store : IsStore op e.slot.instr) :
    Frames op e.slot.addr (bytes (n := 12) s.mem) (bytes (n := 12) (s.posedge e.bramIn).mem) ↔
      (op = .sw → LowBytesZero e.slot.addr (bytes (n := 12) s.mem)) := by
  constructor
  · rintro frames rfl c sameWord before
    rw [← frames c (outside_of_lt sameWord before)]
    exact posedge_sw_low s decoded store sameWord before
  · intro low
    by_cases narrow : op = .sw
    · subst narrow
      intro c outside
      by_cases sameWord : wordAddr (n := 12) c = wordIndex e.slot.addr
      · have before : c.toNat < (byteAddr e.slot.addr).toNat := by
          by_contra behind
          have position := lane_position sameWord
          have inside := byteLane_lt (n := 12) c
          have small : c.toNat - (byteAddr e.slot.addr).toNat < StoreOp.size .sw := by
            simp only [StoreOp.size]
            omega
          exact outside.not_mem small (by omega)
        rw [posedge_sw_low s decoded store sameWord before, low rfl c sameWord before]
      · rw [posedge_byte s decoded store, if_neg fun h => sameWord h.1]
    · exact frames_narrow s decoded store narrow

/-- `sw x2, 1(x1)` in EX of the pipelined core, with x1 = 0x100 and x2 = 0x11223344. -/
def storeUnaligned : Issue where
  slot := .pipelined 0x0020a0a3
    { ctrl := Core.idCtrlBus 0x0020a0a3, imm := imm 0x0020a0a3, src1Value := 0x100
      src2Value := 0x11223344, valid := true }
  fetch := 0

/-- On cleared memory nothing is lost. -/
theorem store_frames_cleared :
    Frames .sw 0x101 (bytes (n := 12) fun _ => 0)
      (bytes (n := 12) (Bram.posedge ⟨fun _ => 0, 0, 0⟩ storeUnaligned.bramIn).mem) :=
  (store_frames_iff (e := storeUnaligned) ⟨fun _ => 0, 0, 0⟩ ⟨rfl, rfl, rfl⟩
    ⟨by decide, by decide⟩).mpr fun _ _ _ _ => by
      simp [bytes, lane]

/-- On memory filled with ones the byte at 0x100, in front of the store, is cleared. -/
theorem store_clears_lower_byte :
    ¬Frames .sw 0x101 (bytes (n := 12) fun _ => 0xFFFFFFFF)
      (bytes (n := 12) (Bram.posedge ⟨fun _ => 0xFFFFFFFF, 0, 0⟩ storeUnaligned.bramIn).mem) := by
  intro frames
  have kept := frames 0x100 (by unfold Outside; decide)
  exact absurd kept (by decide)

end RiscvSoc.Cpu.StoreFrame
