/- GID: RiscvSoc/Firmware/Transfer
   generality: G
   utility: support
   digest: The bootloader over a size header, over a word, and over the words of a program. -/

import RiscvSoc.Firmware.Bootloader
import Mathlib.Data.List.GetD

set_option autoImplicit false
set_option relaxedAutoImplicit false

namespace RiscvSoc.Firmware.Transfer

open RiscvSoc.Cpu.Decoder
open RiscvSoc.Memory.ByteLanes
open RiscvSoc.Memory.DpRam
open RiscvSoc.Fpga.RiscvTop
open RiscvSoc.Firmware.Bootloader

private theorem or_lanes (w : Word) :
    (lane w 0).setWidth 32 ||| (lane w 1).setWidth 32 <<< 8 ||| (lane w 2).setWidth 32 <<< 16 |||
      (lane w 3).setWidth 32 <<< 24 = w := by
  ext i hi
  have split : i < 8 ∨ (8 ≤ i ∧ i < 16) ∨ (16 ≤ i ∧ i < 24) ∨ 24 ≤ i := by omega
  simp only [BitVec.getElem_or, BitVec.getElem_setWidth, BitVec.getElem_shiftLeft, lane,
    BitVec.getLsbD_extractLsb']
  rcases split with first | ⟨lo, hi'⟩ | ⟨lo, hi'⟩ | lo
  · grind
  · grind
  · grind
  · grind

private theorem lane_append (b₀ b₁ b₂ b₃ : Byte) {k : ℕ} (small : k < 4) :
    lane (b₃ ++ b₂ ++ b₁ ++ b₀) k = [b₀, b₁, b₂, b₃].getD k 0 := by
  ext i hi
  simp only [lane, BitVec.getElem_extractLsb', BitVec.getLsbD_append]
  have cases : k = 0 ∨ k = 1 ∨ k = 2 ∨ k = 3 := by omega
  rcases cases with rfl | rfl | rfl | rfl
  · simp [hi]
  · simp [show ¬8 + i < 8 by omega, show 8 + i - 8 = i by omega, hi]
  · simp [show ¬16 + i < 8 by omega, show ¬16 + i - 8 < 8 by omega,
      show 16 + i - 8 - 8 = i by omega, hi]
  · simp [show ¬24 + i < 8 by omega, show ¬24 + i - 8 < 8 by omega,
      show ¬24 + i - 8 - 8 < 8 by omega, show 24 + i - 8 - 8 - 8 = i by omega, hi]

theorem wordBytes_append (b₀ b₁ b₂ b₃ : Byte) :
    wordBytes (b₃ ++ b₂ ++ b₁ ++ b₀) = [b₀, b₁, b₂, b₃] := by
  apply List.ext_getElem
  · simp
  · intro k inside _
    have small : k < 4 := by simpa using inside
    simp only [wordBytes, List.getElem_map, List.getElem_range, lane_append b₀ b₁ b₂ b₃ small]
    simp [List.getD_eq_getElem?_getD, small]

theorem or_bytes (b₀ b₁ b₂ b₃ : Byte) :
    b₀.setWidth 32 ||| b₁.setWidth 32 <<< 8 ||| b₂.setWidth 32 <<< 16 |||
      b₃.setWidth 32 <<< 24 = b₃ ++ b₂ ++ b₁ ++ b₀ := by
  have whole := or_lanes (b₃ ++ b₂ ++ b₁ ++ b₀)
  rw [lane_append, lane_append, lane_append, lane_append] at whole <;> try decide
  exact whole

/-- The head of `recv_loop`: where the next word goes, how many bytes are to come, and the
checksum so far. -/
structure AtLoop (dest count : Word) (sum : Byte) (mem : BramAddr → Word) (tx : List Byte)
    (s : Boot) : Prop where
  label : s.label = if count = 0 then .checksum else .data0
  x21 : s.x21 = dest
  x22 : s.x22 = count
  x23 : s.x23 = sum.setWidth 32
  mem : s.mem = mem
  tx : s.tx = tx

/-- The XOR of bytes. -/
def xorBytes (sum : Byte) (bytes : List Byte) : Byte := bytes.foldl (· ^^^ ·) sum

def storeWords (mem : BramAddr → Word) (a : Word) : List Word → BramAddr → Word
  | [] => mem
  | w :: ws => storeWords (storeWord mem a w) (a + 4) ws

variable {s : Boot} {dest count : Word} {sum : Byte} {mem : BramAddr → Word} {tx : List Byte}

theorem header_run (waiting : s.label = .size0) (size : Word) :
    AtLoop 0x1000 size 0 s.mem s.tx (s.run ((wordBytes size).map some)) := by
  have whole := or_lanes size
  constructor <;>
    simp [wordBytes, List.range_succ, Boot.run, Boot.step, Boot.resume, Boot.recvLoop,
      Label.receives, waiting, whole]

private theorem word_run (here : AtLoop dest count sum mem tx s) (more : count ≠ 0) (w : Word) :
    AtLoop (dest + 4) (count - 4) (xorBytes sum (wordBytes w)) (storeWord mem dest w) tx
      (s.run ((wordBytes w).map some)) := by
  obtain ⟨label, rfl, rfl, x23, rfl, rfl⟩ := here
  rw [if_neg more] at label
  have whole := or_lanes w
  constructor <;>
    simp [wordBytes, List.range_succ, Boot.run, Boot.step, Boot.resume, Boot.recvLoop,
      Label.receives, label, whole, x23, xorBytes, BitVec.setWidth_xor]

theorem more_of_ne {size : Word} {k : ℕ} (ne : size.toNat ≠ 4 * k % 2 ^ 32) :
    size - BitVec.ofNat 32 (4 * k) ≠ 0 := by
  intro zero
  have same := congrArg BitVec.toNat (BitVec.sub_eq_iff_eq_add.mp zero)
  rw [BitVec.toNat_add, BitVec.toNat_ofNat] at same
  change size.toNat = (0 + 4 * k % 2 ^ 32) % 2 ^ 32 at same
  omega

theorem words_run {ws : List Word} (here : AtLoop dest count sum mem tx s)
    (more : ∀ k < ws.length, count - BitVec.ofNat 32 (4 * k) ≠ 0) :
    AtLoop (dest + BitVec.ofNat 32 (4 * ws.length)) (count - BitVec.ofNat 32 (4 * ws.length))
      (xorBytes sum (ws.flatMap wordBytes)) (storeWords mem dest ws) tx
      (s.run ((ws.flatMap wordBytes).map some)) := by
  induction ws generalizing s dest count sum mem with
  | nil => simpa [xorBytes, storeWords, Boot.run] using here
  | cons w ws ih =>
    have first := word_run here (by simpa using more 0 (by simp)) w
    have shift : ∀ k, BitVec.ofNat 32 (4 * (k + 1)) = 4 + BitVec.ofNat 32 (4 * k) := by
      intro k
      rw [Nat.mul_succ, Nat.add_comm, BitVec.ofNat_add]
      rfl
    have rest := ih first (by
      intro k inside
      rw [BitVec.sub_sub, ← shift]
      exact more (k + 1) (by simpa using inside))
    rw [BitVec.sub_sub, BitVec.add_assoc, ← shift] at rest
    simpa [Boot.run_append, xorBytes, storeWords] using rest

section Memory

/-- The byte addresses of the 4096 words. -/
theorem inBram_word {k : ℕ} (inside : k < 0x1000) : inBram (BitVec.ofNat 32 (4 * k)) = true := by
  rw [inBram, beq_iff_eq]
  apply BitVec.eq_of_toNat_eq
  simp only [BitVec.extractLsb'_toNat, BitVec.toNat_ofNat, Nat.shiftRight_eq_div_pow]
  change 4 * k % 2 ^ 32 / 2 ^ 16 % 2 ^ 16 = 0
  omega

theorem wordIndex_word (k : ℕ) :
    wordIndex (BitVec.ofNat 32 (4 * k)) = BitVec.ofNat 12 k := by
  apply BitVec.eq_of_toNat_eq
  simp only [wordIndex, BitVec.extractLsb'_toNat, BitVec.toNat_ofNat, Nat.shiftRight_eq_div_pow]
  omega

theorem storeWord_bram (mem : BramAddr → Word) {k : ℕ} (inside : k < 0x1000) (data : Word) :
    storeWord mem (BitVec.ofNat 32 (4 * k)) data =
      Function.update mem (BitVec.ofNat 12 k) data := by
  rw [storeWord, if_pos (inBram_word inside), wordIndex_word, writeMasked, mergeBytes_full]

/-- Words stored one after the other inside the BRAM. -/
theorem storeWords_bram {ws : List Word} {base : ℕ} (inside : base + ws.length ≤ 0x1000)
    (mem : BramAddr → Word) (a : BramAddr) :
    storeWords mem (BitVec.ofNat 32 (4 * base)) ws a =
      if base ≤ a.toNat ∧ a.toNat < base + ws.length then ws.getD (a.toNat - base) 0
      else mem a := by
  induction ws generalizing mem base with
  | nil =>
    rw [if_neg (by simp)]
    rfl
  | cons w ws ih =>
    rw [List.length_cons] at inside ⊢
    have next : BitVec.ofNat 32 (4 * base) + 4 = BitVec.ofNat 32 (4 * (base + 1)) := by
      rw [Nat.mul_succ, BitVec.ofNat_add]
      rfl
    have bound := a.isLt
    rw [storeWords, next, ih (by omega), storeWord_bram mem (by omega)]
    rcases Nat.lt_trichotomy a.toNat base with below | here | above
    · have other : a ≠ BitVec.ofNat 12 base := by
        intro same
        rw [same, BitVec.toNat_ofNat] at below
        omega
      rw [if_neg (by omega), if_neg (by omega), Function.update_of_ne other]
    · have same : a = BitVec.ofNat 12 base := by
        apply BitVec.eq_of_toNat_eq
        rw [BitVec.toNat_ofNat]
        omega
      rw [if_neg (by omega), if_pos (by omega), here, Nat.sub_self, same, Function.update_self]
      rfl
    · have other : a ≠ BitVec.ofNat 12 base := by
        intro same
        rw [same, BitVec.toNat_ofNat] at above
        omega
      have place : a.toNat - base = a.toNat - (base + 1) + 1 := by omega
      by_cases last : a.toNat < base + 1 + ws.length
      · rw [if_pos ⟨above, last⟩, if_pos (by omega), place, List.getD_cons_succ]
      · rw [if_neg (by omega), if_neg (by omega), Function.update_of_ne other]

end Memory

section Programs

/-- The bytes of a program are those of its words. -/
theorem exists_words {bytes : List Byte} (words : 4 ∣ bytes.length) :
    ∃ ws : List Word, bytes = ws.flatMap wordBytes ∧ bytes.length = 4 * ws.length := by
  obtain ⟨n, len⟩ := words
  induction n generalizing bytes with
  | zero =>
    obtain rfl := List.eq_nil_of_length_eq_zero len
    exact ⟨[], rfl, rfl⟩
  | succ n ih =>
    match bytes, len with
    | b₀ :: b₁ :: b₂ :: b₃ :: rest, len =>
      have rest4 : rest.length = 4 * n := by
        simp only [List.length_cons] at len
        omega
      obtain ⟨ws, whole, count⟩ := ih rest4
      refine ⟨(b₃ ++ b₂ ++ b₁ ++ b₀) :: ws, ?_, ?_⟩
      · rw [List.flatMap_cons, wordBytes_append, ← whole]
        rfl
      · simp only [List.length_cons]
        omega

/-- Byte `4 * j + k` of a program is byte `k` of its word `j`. -/
theorem getD_flatMap_wordBytes {ws : List Word} {j k : ℕ} (word : j < ws.length) (small : k < 4) :
    (ws.flatMap wordBytes).getD (4 * j + k) 0 = lane (ws.getD j 0) k := by
  induction ws generalizing j with
  | nil => simp at word
  | cons w ws ih =>
    rw [List.flatMap_cons]
    cases j with
    | zero =>
      rw [Nat.mul_zero, Nat.zero_add, List.getD_append _ _ _ _ (by simpa using small)]
      simp [wordBytes, small, List.getD_eq_getElem?_getD]
    | succ j =>
      rw [List.getD_append_right _ _ _ _ (by rw [wordBytes_length]; omega), wordBytes_length,
        show 4 * (j + 1) + k - 4 = 4 * j + k by omega]
      exact ih (by simpa using word)

private theorem checksum_step {c : Byte} (label : s.label = .checksum)
    (x23 : s.x23 = sum.setWidth 32) :
    (s.step (some c)).mem = s.mem ∧
      if c = sum then (s.step (some c)).label = .program ∧ (s.step (some c)).tx = s.tx ++ [0xBB]
      else (s.step (some c)).label = .errorLoop ∧ (s.step (some c)).tx = s.tx ++ [0xEE] := by
  have same : c.setWidth 32 = s.x23 ↔ c = sum := by
    rw [x23]
    constructor
    · intro wide
      simpa using congrArg (BitVec.setWidth 8) wide
    · intro equal
      rw [equal]
  simp only [Boot.step, Boot.resume, Boot.recvDone, Label.receives, label, if_true, ne_eq, same]
  by_cases equal : c = sum
  · simp [equal, Boot.uartTxByte]
  · simp [equal, Boot.bootError, Boot.uartTxByte]

/-- A whole transfer, with a checksum byte at its end. -/
theorem transfer_run (waiting : s.label = .size0) {size : Word} {ws : List Word}
    (len : size.toNat = 4 * ws.length) (c : Byte) :
    let t := s.run ((wordBytes size ++ ws.flatMap wordBytes ++ [c]).map some)
    t.mem = storeWords s.mem 0x1000 ws ∧
      if c = xorBytes 0 (ws.flatMap wordBytes) then
        t.label = .program ∧ t.tx = s.tx ++ [0xBB]
      else t.label = .errorLoop ∧ t.tx = s.tx ++ [0xEE] := by
  have bound := size.isLt
  have more : ∀ k < ws.length, size - BitVec.ofNat 32 (4 * k) ≠ 0 := by
    intro k inside
    apply more_of_ne
    omega
  have all := words_run (header_run waiting size) more
  have none : size - BitVec.ofNat 32 (4 * ws.length) = 0 := by
    rw [← len, BitVec.ofNat_toNat, BitVec.setWidth_eq, BitVec.sub_self]
    rfl
  rw [← Boot.run_append, ← List.map_append] at all
  obtain ⟨label, -, -, x23, mem, tx⟩ := all
  rw [if_pos none] at label
  intro t
  have last : t = (s.run ((wordBytes size ++ ws.flatMap wordBytes).map some)).step (some c) := by
    rw [← Boot.run_concat]
    simp [t]
  obtain ⟨same, answer⟩ := checksum_step label x23 (c := c)
  rw [last, same, ← tx]
  exact ⟨mem, answer⟩

end Programs

end RiscvSoc.Firmware.Transfer
