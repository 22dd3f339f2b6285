/- GID: RiscvSoc/Memory/ByteMemory
   generality: G
   utility: library
   digest: A little-endian byte-addressed memory, and the word memory that implements it. -/

import RiscvSoc.Memory.ByteLanes
import Mathlib.Tactic.SplitIfs

set_option autoImplicit false
set_option relaxedAutoImplicit false

namespace RiscvSoc.Memory.ByteMemory

open RiscvSoc.Memory.ByteLanes

/-- A memory of `2 ^ (n + 2)` bytes. -/
abbrev ByteMem (n : ℕ) := BitVec (n + 2) → Byte

inductive LoadOp where
  | lb
  | lh
  | lw
  | lbu
  | lhu
  deriving DecidableEq

inductive StoreOp where
  | sb
  | sh
  | sw
  deriving DecidableEq

/-- Bytes a load reads. -/
def LoadOp.size : LoadOp → ℕ
  | .lb | .lbu => 1
  | .lh | .lhu => 2
  | .lw => 4

/-- Bytes a store writes. -/
def StoreOp.size : StoreOp → ℕ
  | .sb => 1
  | .sh => 2
  | .sw => 4

variable {n : ℕ}

namespace ByteMem

/-- The little-endian value of the addressed bytes, extended to a word. -/
def read (m : ByteMem n) (b : BitVec (n + 2)) : LoadOp → BitVec 32
  | .lb => (m b).signExtend 32
  | .lh => (m (b + 1) ++ m b).signExtend 32
  | .lw => m (b + 3) ++ m (b + 2) ++ m (b + 1) ++ m b
  | .lbu => (m b).setWidth 32
  | .lhu => (m (b + 1) ++ m b).setWidth 32

/-- The low bytes of `v` go to the addressed bytes, the lowest first. -/
def write (m : ByteMem n) (b : BitVec (n + 2)) (op : StoreOp) (v : BitVec 32) : ByteMem n :=
  fun c =>
    if b.toNat ≤ c.toNat ∧ c.toNat < b.toNat + op.size then lane v (c.toNat - b.toNat) else m c

end ByteMem

/-- One access to a byte memory. -/
inductive Access (n : ℕ) where
  | load (op : LoadOp) (b : BitVec (n + 2))
  | store (op : StoreOp) (b : BitVec (n + 2)) (v : BitVec 32)

def Access.Aligned : Access n → Prop
  | .load op b => b.toNat % op.size = 0
  | .store op b _ => b.toNat % op.size = 0

/-- The memory after a list of accesses, and what its loads return. -/
def runAccesses (m : ByteMem n) : List (Access n) → ByteMem n × List (BitVec 32)
  | [] => (m, [])
  | .load op b :: rest => ((runAccesses m rest).1, m.read b op :: (runAccesses m rest).2)
  | .store op b v :: rest => runAccesses (m.write b op v) rest

section Words

/-- The word and the lane of a byte address. -/
def wordAddr (b : BitVec (n + 2)) : BitVec n := b.extractLsb' 2 n
def byteLane (b : BitVec (n + 2)) : ℕ := (b.extractLsb' 0 2).toNat

/-- The bytes of a word memory. -/
def bytes (m : BitVec n → BitVec 32) : ByteMem n := fun b => lane (m (wordAddr b)) (byteLane b)

private theorem wordAddr_toNat (b : BitVec (n + 2)) : (wordAddr b).toNat = b.toNat / 4 := by
  have small : b.toNat < 2 ^ n * 4 := by
    have lt := b.isLt
    rwa [Nat.pow_add] at lt
  rw [wordAddr, BitVec.extractLsb'_toNat, Nat.shiftRight_eq_div_pow]
  exact Nat.mod_eq_of_lt (Nat.div_lt_of_lt_mul (by omega))

theorem byteLane_eq (b : BitVec (n + 2)) : byteLane b = b.toNat % 4 := by
  rw [byteLane, BitVec.extractLsb'_toNat, Nat.shiftRight_zero]

theorem byteLane_lt (b : BitVec (n + 2)) : byteLane b < 4 := by
  rw [byteLane_eq]
  exact Nat.mod_lt _ (by decide)

private theorem bytes_add (m : BitVec n → BitVec 32) (b : BitVec (n + 2)) {k : ℕ}
    (inside : byteLane b + k < 4) :
    bytes m (b + BitVec.ofNat (n + 2) k) = lane (m (wordAddr b)) (byteLane b + k) := by
  have lt := b.isLt
  have width : 2 ^ (n + 2) = 2 ^ n * 4 := by rw [Nat.pow_add]
  have sum : (b + BitVec.ofNat (n + 2) k).toNat = b.toNat + k := by
    rw [byteLane_eq] at inside
    rw [BitVec.toNat_add, BitVec.toNat_ofNat, Nat.add_mod_mod, Nat.mod_eq_of_lt (by omega)]
  have word : wordAddr (b + BitVec.ofNat (n + 2) k) = wordAddr b := by
    apply BitVec.eq_of_toNat_eq
    rw [byteLane_eq] at inside
    rw [wordAddr_toNat, wordAddr_toNat, sum]
    omega
  rw [bytes, word, byteLane_eq, byteLane_eq, sum]
  rw [byteLane_eq] at inside
  congr 1
  omega

private theorem lane_shiftLeft (v : BitVec 32) {off k : ℕ} (le : off ≤ k) (small : k < 4) :
    lane (v <<< (off * 8)) k = lane v (k - off) := by
  ext i hi
  have above : ¬ 8 * k + i < off * 8 := by omega
  have inside : 8 * k + i < 32 := by omega
  have index : 8 * k + i - off * 8 = 8 * (k - off) + i := by omega
  simp only [lane, BitVec.getElem_extractLsb', BitVec.getLsbD_shiftLeft, above, inside, index,
    decide_true, decide_false, Bool.not_false, Bool.true_and]

private theorem lane_ushiftRight (w : BitVec 32) (off k : ℕ) :
    (w >>> (off * 8)).extractLsb' (8 * k) 8 = lane w (off + k) := by
  ext i hi
  have index : off * 8 + (8 * k + i) = 8 * (off + k) + i := by omega
  simp [lane, index]

private theorem half_ushiftRight (w : BitVec 32) (off : ℕ) :
    (w >>> (off * 8)).extractLsb' 0 16 = lane w (off + 1) ++ lane w off := by
  have low : lane w off = (w >>> (off * 8)).extractLsb' (8 * 0) 8 := (lane_ushiftRight w off 0).symm
  rw [← lane_ushiftRight w off 1, low]
  apply BitVec.eq_of_getLsbD_eq
  intro i hi
  simp only [BitVec.getLsbD_append, BitVec.getLsbD_extractLsb']
  by_cases first : i < 8
  · simp [first, hi]
  · simp [first, hi, show i - 8 < 8 by omega, show 8 + (i - 8) = i by omega]

private theorem word_lanes (w : BitVec 32) : lane w 3 ++ lane w 2 ++ lane w 1 ++ lane w 0 = w := by
  have merged := mergeBytes_full w w
  exact merged

theorem lane_shiftLeft_low (v : BitVec 32) {off k : ℕ} (below : k < off) :
    lane (v <<< (off * 8)) k = 0 := by
  ext i hi
  have under : 8 * k + i < off * 8 := by omega
  simp [lane, under]

/-- What a masked write leaves in every byte. -/
theorem bytes_writeMasked_apply (m : BitVec n → BitVec 32) (w : BitVec n) (data : BitVec 32)
    (mask : BitVec 4) (c : BitVec (n + 2)) :
    bytes (writeMasked m w data mask) c =
      if wordAddr c = w ∧ mask.getLsbD (byteLane c) = true then lane data (byteLane c)
      else bytes m c := by
  by_cases same : wordAddr c = w
  · subst same
    rw [bytes, writeMasked_same, lane_mergeBytes _ _ _ (byteLane_lt c)]
    simp only [true_and]
    rfl
  · rw [bytes, writeMasked_other _ _ _ same, if_neg fun h => same h.1, bytes]

/-- Two bytes of one word have addresses with the same quotient by 4. -/
theorem wordAddr_eq_iff (b c : BitVec (n + 2)) :
    wordAddr c = wordAddr b ↔ c.toNat / 4 = b.toNat / 4 := by
  rw [← wordAddr_toNat, ← wordAddr_toNat]
  exact ⟨congrArg BitVec.toNat, BitVec.eq_of_toNat_eq⟩

/-- A masked write of the lanes from `off` on is a write of the bytes at `b`. -/
theorem bytes_writeMasked (m : BitVec n → BitVec 32) (b : BitVec (n + 2)) (op : StoreOp)
    (v : BitVec 32) (mask : BitVec 4) (aligned : b.toNat % op.size = 0)
    (lanes : ∀ k < 4, mask.getLsbD k =
      decide (byteLane b ≤ k ∧ k < byteLane b + op.size)) :
    bytes (writeMasked m (wordAddr b) (v <<< (byteLane b * 8)) mask) =
      (bytes m).write b op v := by
  have fits : byteLane b + op.size ≤ 4 := by
    rw [byteLane_eq]
    cases op <;> simp only [StoreOp.size] at aligned ⊢ <;> omega
  funext c
  have range : (wordAddr c = wordAddr b ∧ mask.getLsbD (byteLane c) = true) ↔
      (b.toNat ≤ c.toNat ∧ c.toNat < b.toNat + op.size) := by
    rw [lanes _ (byteLane_lt c), decide_eq_true_eq, wordAddr_eq_iff]
    rw [byteLane_eq] at fits ⊢
    rw [byteLane_eq]
    omega
  rw [bytes_writeMasked_apply, ByteMem.write]
  simp only [range]
  split_ifs with inside
  · have word := (wordAddr_eq_iff b c).mp (range.mpr inside).1
    have behind : byteLane b ≤ byteLane c := by
      rw [byteLane_eq, byteLane_eq]
      omega
    rw [lane_shiftLeft v behind (byteLane_lt c), byteLane_eq, byteLane_eq]
    congr 1
    omega
  · rfl

private theorem bytes_second (m : BitVec n → BitVec 32) {b : BitVec (n + 2)}
    (even : b.toNat % 2 = 0) :
    bytes m (b + 1) = lane (m (wordAddr b)) (byteLane b + 1) := by
  have inside : byteLane b + 1 < 4 := by
    rw [byteLane_eq]
    omega
  exact bytes_add m b inside

/-- An aligned load takes its bytes from one word. -/
theorem read_bytes (m : BitVec n → BitVec 32) (b : BitVec (n + 2)) (op : LoadOp)
    (aligned : b.toNat % op.size = 0) :
    (bytes m).read b op =
      let shifted := m (wordAddr b) >>> (byteLane b * 8)
      match op with
      | .lb => (shifted.extractLsb' 0 8).signExtend 32
      | .lh => (shifted.extractLsb' 0 16).signExtend 32
      | .lw => m (wordAddr b)
      | .lbu => (shifted.extractLsb' 0 8).setWidth 32
      | .lhu => (shifted.extractLsb' 0 16).setWidth 32 := by
  have first : ((m (wordAddr b)) >>> (byteLane b * 8)).extractLsb' 0 8 = bytes m b :=
    lane_ushiftRight _ _ 0
  cases op with
  | lb => simp only [ByteMem.read, first]
  | lbu => simp only [ByteMem.read, first]
  | lh =>
    simp only [ByteMem.read, half_ushiftRight, bytes_second m aligned]
    rfl
  | lhu =>
    simp only [ByteMem.read, half_ushiftRight, bytes_second m aligned]
    rfl
  | lw =>
    have zero : byteLane b = 0 := by
      rw [byteLane_eq]
      exact aligned
    have at_k : ∀ k, k < 4 → bytes m (b + BitVec.ofNat (n + 2) k) = lane (m (wordAddr b)) k := by
      intro k small
      rw [bytes_add m b (by omega), zero, Nat.zero_add]
    have low : bytes m b = lane (m (wordAddr b)) 0 := by rw [bytes, zero]
    simp only [ByteMem.read]
    rw [low, show b + 1 = b + BitVec.ofNat (n + 2) 1 from rfl,
      show b + 2 = b + BitVec.ofNat (n + 2) 2 from rfl,
      show b + 3 = b + BitVec.ofNat (n + 2) 3 from rfl, at_k 1 (by decide), at_k 2 (by decide),
      at_k 3 (by decide)]
    exact word_lanes _

/-- The first byte of a word. -/
def firstByte (w : BitVec n) : BitVec (n + 2) := w ++ 0#2

theorem firstByte_toNat (w : BitVec n) : (firstByte w).toNat = 4 * w.toNat := by
  rw [firstByte, BitVec.toNat_append, Nat.shiftLeft_eq]
  simp
  omega

private theorem wordAddr_firstByte (w : BitVec n) : wordAddr (firstByte w) = w := by
  apply BitVec.eq_of_toNat_eq
  rw [wordAddr_toNat, firstByte_toNat]
  omega

private theorem byteLane_firstByte (w : BitVec n) : byteLane (firstByte w) = 0 := by
  rw [byteLane_eq, firstByte_toNat]
  omega

/-- The bytes determine the words. -/
theorem bytes_injective : Function.Injective (bytes (n := n)) := by
  intro m m' same
  funext w
  have aligned : (firstByte w).toNat % LoadOp.size .lw = 0 := by
    rw [firstByte_toNat]
    exact Nat.mul_mod_right 4 _
  have word := read_bytes m (firstByte w) .lw aligned
  rw [same, read_bytes m' (firstByte w) .lw aligned] at word
  simpa only [wordAddr_firstByte] using word.symm

/-- A word store replaces one word. -/
theorem write_firstByte (m : BitVec n → BitVec 32) (w : BitVec n) (v : BitVec 32) :
    (bytes m).write (firstByte w) .sw v = bytes (writeMasked m w v 0b1111#4) := by
  have aligned : (firstByte w).toNat % StoreOp.size .sw = 0 := by
    rw [firstByte_toNat]
    exact Nat.mul_mod_right 4 _
  have written := bytes_writeMasked m (firstByte w) .sw v 0b1111#4 aligned (by
    rw [byteLane_firstByte]
    decide)
  rw [← written, wordAddr_firstByte, byteLane_firstByte]
  simp

end Words

end RiscvSoc.Memory.ByteMemory
