/- GID: RiscvSoc/Memory/ByteLanes
   generality: G
   utility: library
   digest: Byte-masked writes of a 32-bit word, and memories written through them. -/

import Mathlib.Data.Nat.Notation
import Mathlib.Data.Set.Function
import Mathlib.Logic.Function.Basic

set_option autoImplicit false
set_option relaxedAutoImplicit false

namespace RiscvSoc.Memory.ByteLanes

abbrev Byte := BitVec 8

/-- Byte lane `k` of a word. -/
def lane (w : BitVec 32) (k : ℕ) : Byte := w.extractLsb' (8 * k) 8

/-- Each set mask bit replaces its byte lane, the others keep the old byte. -/
def mergeBytes (old data : BitVec 32) (mask : BitVec 4) : BitVec 32 :=
  let pick := fun k => if mask.getLsbD k then lane data k else lane old k
  pick 3 ++ pick 2 ++ pick 1 ++ pick 0

private theorem lane_ext {v w : BitVec 32} (lanes : ∀ k < 4, lane v k = lane w k) : v = w := by
  ext i hi
  have same := congrArg (fun b : BitVec 8 => b.getLsbD (i % 8)) (lanes (i / 8) (by omega))
  have small : i % 8 < 8 := by omega
  simpa [lane, BitVec.getLsbD_extractLsb', small, Nat.div_add_mod, hi] using same

/-- The assignment `w[8*k +: 8] <= b`. -/
def setLane (w : BitVec 32) (k : ℕ) (b : Byte) : BitVec 32 :=
  w &&& ~~~(0xFF#32 <<< (8 * k)) ||| b.setWidth 32 <<< (8 * k)

/-- Setting a byte lane leaves the others. -/
theorem lane_setLane (w : BitVec 32) (b : Byte) {j k : ℕ} (hj : j < 4) (hk : k < 4) :
    lane (setLane w k b) j = if j = k then b else lane w j := by
  have ones : ∀ i, (0xFF#32).getLsbD i = decide (i < 8) := by
    intro i
    by_cases small : i < 32
    · revert small; revert i; decide
    · rw [BitVec.getLsbD_of_ge _ _ (by omega)]; simp; omega
  ext i hi
  have inside : 8 * j + i < 32 := by omega
  rcases Nat.lt_trichotomy j k with lt | rfl | gt
  · have below : 8 * j + i < 8 * k := by omega
    simp [lane, setLane, Nat.ne_of_lt lt, below, inside]
  · have above : ¬8 * j + i < 8 * j := by omega
    have mask : (0xFF#32)[i] = true := (ones i).trans (decide_eq_true hi)
    simp [lane, setLane, above, inside, mask, hi]
  · have above : ¬8 * j + i < 8 * k := by omega
    have mask : (0xFF#32)[8 * j + i - 8 * k] = false :=
      (ones (8 * j + i - 8 * k)).trans (decide_eq_false (by omega))
    have off : b.getLsbD (8 * j + i - 8 * k) = false := BitVec.getLsbD_of_ge _ _ (by omega)
    simp [lane, setLane, Nat.ne_of_gt gt, above, mask, off, inside]

/-- Four bytes set one after the other are the word they came from. -/
theorem setLane_lanes (old w : BitVec 32) :
    setLane (setLane (setLane (setLane old 0 (lane w 0)) 1 (lane w 1)) 2 (lane w 2)) 3
      (lane w 3) = w := by
  apply lane_ext
  intro k hk
  rw [lane_setLane _ _ hk (by decide), lane_setLane _ _ hk (by decide),
    lane_setLane _ _ hk (by decide), lane_setLane _ _ hk (by decide)]
  have cases : k = 0 ∨ k = 1 ∨ k = 2 ∨ k = 3 := by omega
  rcases cases with rfl | rfl | rfl | rfl <;> rfl

/-- The four bytes of a word, little-endian. -/
def wordBytes (w : BitVec 32) : List Byte := (List.range 4).map (lane w)

/-- The two bytes of a 16-bit value, little-endian. -/
def halfBytes (h : BitVec 16) : List Byte := [h.extractLsb' 0 8, h.extractLsb' 8 8]

@[simp] theorem wordBytes_length (w : BitVec 32) : (wordBytes w).length = 4 := by
  simp [wordBytes]

theorem wordBytes_inj {v w : BitVec 32} (same : wordBytes v = wordBytes w) : v = w := by
  apply lane_ext
  intro k small
  have entry := congrArg (fun l => l[k]?) same
  simpa [wordBytes, small] using entry

@[simp] theorem length_flatMap_wordBytes (ws : List (BitVec 32)) :
    (ws.flatMap wordBytes).length = 4 * ws.length := by
  induction ws with
  | nil => rfl
  | cons w ws ih => simp [ih, Nat.mul_add, Nat.add_comm]

theorem lane_mergeBytes (old data : BitVec 32) (mask : BitVec 4) {k : ℕ} (hk : k < 4) :
    lane (mergeBytes old data mask) k = if mask.getLsbD k then lane data k else lane old k := by
  have cases : k = 0 ∨ k = 1 ∨ k = 2 ∨ k = 3 := by omega
  rcases cases with rfl | rfl | rfl | rfl <;>
    · ext i hi
      simp only [lane, mergeBytes, BitVec.getElem_extractLsb', BitVec.getLsbD_append]
      grind

@[simp] theorem mergeBytes_mergeBytes (old data : BitVec 32) (mask : BitVec 4) :
    mergeBytes (mergeBytes old data mask) data mask = mergeBytes old data mask := by
  apply lane_ext
  intro k hk
  rw [lane_mergeBytes _ _ _ hk, lane_mergeBytes _ _ _ hk]
  split <;> rfl

@[simp] theorem mergeBytes_full (old data : BitVec 32) : mergeBytes old data 0b1111#4 = data := by
  apply lane_ext
  intro k hk
  have set : (0b1111#4).getLsbD k = true := by
    have cases : k = 0 ∨ k = 1 ∨ k = 2 ∨ k = 3 := by omega
    rcases cases with rfl | rfl | rfl | rfl <;> rfl
  rw [lane_mergeBytes _ _ _ hk, if_pos set]

section Memory

variable {κ : Type*} [DecidableEq κ]

/-- A byte-masked write of the word at `a`. -/
def writeMasked (m : κ → BitVec 32) (a : κ) (data : BitVec 32) (mask : BitVec 4) : κ → BitVec 32 :=
  Function.update m a (mergeBytes (m a) data mask)

theorem writeMasked_same (m : κ → BitVec 32) (a : κ) (data : BitVec 32) (mask : BitVec 4) :
    writeMasked m a data mask a = mergeBytes (m a) data mask := by
  simp [writeMasked]

theorem writeMasked_other (m : κ → BitVec 32) {a b : κ} (data : BitVec 32) (mask : BitVec 4)
    (other : b ≠ a) : writeMasked m a data mask b = m b := by
  simp [writeMasked, other]

/-- Holding a write for another clock changes nothing. -/
theorem writeMasked_again (m : κ → BitVec 32) (a : κ) (data : BitVec 32) (mask : BitVec 4) :
    writeMasked (writeMasked m a data mask) a data mask = writeMasked m a data mask := by
  simp [writeMasked]

/-- Two memories agree outside a set of words. -/
def AgreeOff (u : Set κ) (m m' : κ → BitVec 32) : Prop := Set.EqOn m m' uᶜ

variable {u : Set κ} {m m' : κ → BitVec 32}

theorem AgreeOff.update {a : κ} (agree : AgreeOff u m m') (inside : a ∈ u) (v : BitVec 32) :
    AgreeOff u (Function.update m a v) m' := by
  intro b outside
  rw [Function.update_of_ne fun same : b = a => outside (same ▸ inside)]
  exact agree outside

/-- The same write on both keeps them in agreement. -/
theorem AgreeOff.writeMasked (agree : AgreeOff u m m') (a : κ) (data : BitVec 32)
    (mask : BitVec 4) :
    AgreeOff u (ByteLanes.writeMasked m a data mask) (ByteLanes.writeMasked m' a data mask) := by
  intro b outside
  by_cases here : b = a
  · subst here
    rw [writeMasked_same, writeMasked_same, agree outside]
  · rw [writeMasked_other _ _ _ here, writeMasked_other _ _ _ here]
    exact agree outside

end Memory

end RiscvSoc.Memory.ByteLanes
