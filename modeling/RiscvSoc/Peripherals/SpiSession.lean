/- GID: RiscvSoc/Peripherals/SpiSession
   generality: G
   utility: support
   digest: A bus master that gives `clk` one edge behind each word: what the slave hears of it. -/

import RiscvSoc.Peripherals.SpiDelivery

set_option autoImplicit false
set_option relaxedAutoImplicit false

namespace RiscvSoc.Peripherals.SpiSession

open RiscvSoc.Clocked.Trajectory
open RiscvSoc.Peripherals.SpiSlave
open RiscvSoc.Peripherals.SpiDelivery

variable {w : ℕ}

section Bits

def msbFirst (b : BitVec w) : List Bool := (List.range w).map b.getMsbD

private theorem bigEndian_high (b : BitVec w) {k : ℕ} (le : k ≤ w) :
    bigEndian ((List.range k).map b.getMsbD) = b.toNat / 2 ^ (w - k) := by
  induction k with
  | zero => simp [bigEndian, Nat.div_eq_of_lt b.isLt]
  | succ k ih =>
    have bit : b.getMsbD k = b.toNat.testBit (w - (k + 1)) := by
      rw [BitVec.getMsbD, BitVec.getLsbD, decide_eq_true (show k < w by omega), Bool.true_and,
        Nat.sub_sub, Nat.add_comm]
    have halves : b.toNat / 2 ^ (w - k) = b.toNat / 2 ^ (w - (k + 1)) / 2 := by
      rw [Nat.div_div_eq_div_mul, ← pow_succ, show w - (k + 1) + 1 = w - k by omega]
    rw [List.range_succ, List.map_append, List.map_singleton, bigEndian_concat, ih (by omega), bit,
      Nat.testBit_eq_decide_div_mod_eq, halves]
    rcases Nat.mod_two_eq_zero_or_one (b.toNat / 2 ^ (w - (k + 1))) with even | odd
    · rw [even]
      exact Nat.mul_div_cancel' (Nat.dvd_of_mod_eq_zero even)
    · rw [odd]
      exact Nat.two_mul_div_two_add_one_of_odd (Nat.odd_iff.mpr odd)

private theorem ofNat_msbFirst (b : BitVec w) : BitVec.ofNat w (bigEndian (msbFirst b)) = b := by
  rw [msbFirst, bigEndian_high b le_rfl, Nat.sub_self, pow_zero, Nat.div_one,
    BitVec.ofNat_toNat, BitVec.setWidth_eq]

private theorem length_msbFirst (b : BitVec w) : (msbFirst b).length = w := by
  rw [msbFirst, List.length_map, List.length_range]

end Bits

section Edges

/-- One word on the bus and one edge of `clk` behind it. -/
def wordEdges (b : BitVec w) : List Edge := (msbFirst b).map .sclkRise ++ [.clk]

/-- A transaction of the words `ws`; `cs_n` stays low. -/
def session (ws : List (BitVec w)) : List Edge := .csFall :: ws.flatMap wordEdges

/-- The edges are those of the session, and `clk` alone behind it. -/
def played (ws : List (BitVec w)) (k : ℕ) : Edge := (session ws).getD k .clk

def AllInTime : Wire w → List Edge → Prop
  | _, [] => True
  | m, e :: edges => m.InTime e ∧ AllInTime (m.react e) edges

variable {m : Wire w}

private theorem allInTime_append {front back : List Edge} :
    AllInTime m (front ++ back) ↔
      AllInTime m front ∧ AllInTime (front.foldl Wire.react m) back := by
  induction front generalizing m with
  | nil => simp [AllInTime]
  | cons e front ih =>
    rw [List.cons_append, AllInTime, AllInTime, ih, List.foldl_cons, and_assoc]

private theorem allInTime_getElem {edges : List Edge} (all : AllInTime m edges) {k : ℕ}
    (inside : k < edges.length) :
    ((edges.take k).foldl Wire.react m).InTime edges[k] := by
  induction edges generalizing m k with
  | nil => cases inside
  | cons e edges ih =>
    cases k with
    | zero => exact all.1
    | succ k => exact ih all.2 (Nat.lt_of_succ_lt_succ inside)

/-- Between words, the transaction open and the last word sampled. -/
structure Between (m : Wire w) : Prop where
  selected : m.selected = true
  unsampled : m.unsampled = false
  bits : w ∣ m.bits.length

private theorem bits_react (pos : 0 < w) (between : Between m) (bs : List Bool)
    (short : bs.length ≤ w) :
    AllInTime m (bs.map .sclkRise) ∧
      (bs.map .sclkRise).foldl Wire.react m =
        { m with bits := m.bits ++ bs, unsampled := decide (bs.length = w) } := by
  induction bs using List.reverseRecOn with
  | nil =>
    refine ⟨trivial, ?_⟩
    have none : decide (([] : List Bool).length = w) = false := decide_eq_false pos.ne
    rw [none, List.append_nil, ← between.unsampled]
    rfl
  | append_singleton bs b ih =>
    rw [List.length_append, List.length_singleton] at short
    obtain ⟨inTime, reached⟩ := ih (by omega)
    have inside : decide (bs.length = w) = false := decide_eq_false (by omega)
    rw [List.map_append, List.foldl_append, allInTime_append, reached, inside]
    refine ⟨⟨inTime, fun _ => rfl, trivial⟩, ?_⟩
    have last : ((m.bits.length + bs.length + 1) % w == 0) = decide (bs.length + 1 = w) := by
      obtain ⟨q, total⟩ := between.bits
      rw [total, Nat.add_assoc, Nat.mul_add_mod]
      rcases Nat.lt_or_eq_of_le short with within | full
      · simp [Nat.mod_eq_of_lt within, within.ne]
      · simp [full]
    simp only [List.map_singleton, List.foldl_cons, List.foldl_nil, Wire.react, between.selected,
      if_true, Wire.completes, Bool.true_and, Bool.false_or, List.append_assoc,
      List.length_append, List.length_singleton, last]

private theorem word_react (pos : 0 < w) (between : Between m) (b : BitVec w) :
    AllInTime m (wordEdges b) ∧
      (wordEdges b).foldl Wire.react m = { m with bits := m.bits ++ msbFirst b } := by
  obtain ⟨inTime, reached⟩ := bits_react pos between (msbFirst b) (length_msbFirst b).le
  rw [wordEdges, List.foldl_append, allInTime_append, reached]
  refine ⟨⟨inTime, trivial, trivial⟩, ?_⟩
  simp only [List.foldl_cons, List.foldl_nil, Wire.react, ← between.unsampled]

private theorem between_word (between : Between m) (b : BitVec w) :
    Between { m with bits := m.bits ++ msbFirst b } where
  selected := between.selected
  unsampled := between.unsampled
  bits := by
    change w ∣ (m.bits ++ msbFirst b).length
    rw [List.length_append, length_msbFirst]
    exact Nat.dvd_add between.bits dvd_rfl

private theorem wordsOf_word (pos : 0 < w) {bits : List Bool} (complete : w ∣ bits.length)
    (b : BitVec w) :
    wordsOf w (bits ++ msbFirst b) = wordsOf w bits ++ [b] := by
  obtain ⟨q, total⟩ := complete
  have length : (bits ++ msbFirst b).length = w * q + w := by
    rw [List.length_append, total, length_msbFirst]
  have count : (w * q + w) / w = q + 1 := by
    rw [← Nat.mul_succ, Nat.mul_div_cancel_left _ pos]
  have kept : (List.range q).map (wordAt w (bits ++ msbFirst b)) =
      (List.range q).map (wordAt w bits) := by
    apply List.map_congr_left
    intro k inside
    apply wordAt_append
    rw [total, ← Nat.mul_succ]
    exact Nat.mul_le_mul_left w (List.mem_range.mp inside)
  rw [wordsOf, wordsOf, length, count, total, Nat.mul_div_cancel_left _ pos, List.range_succ,
    List.map_append, kept, List.map_singleton, wordAt_last length.symm,
    ofNat_bigEndian (length_msbFirst b), ofNat_msbFirst]

private theorem words_react (pos : 0 < w) (between : Between m) (ws : List (BitVec w)) :
    AllInTime m (ws.flatMap wordEdges) ∧
      (ws.flatMap wordEdges).foldl Wire.react m =
        { m with bits := m.bits ++ ws.flatMap msbFirst } := by
  induction ws generalizing m with
  | nil => exact ⟨trivial, by simp⟩
  | cons b ws ih =>
    obtain ⟨inTime, reached⟩ := word_react pos between b
    obtain ⟨later, finish⟩ := ih (between_word between b)
    rw [List.flatMap_cons, List.flatMap_cons, List.foldl_append, allInTime_append, reached, finish,
      List.append_assoc]
    exact ⟨⟨inTime, later⟩, rfl⟩

private theorem wordsOf_flatMap (pos : 0 < w) {bits : List Bool} (complete : w ∣ bits.length)
    (ws : List (BitVec w)) :
    wordsOf w (bits ++ ws.flatMap msbFirst) = wordsOf w bits ++ ws := by
  induction ws generalizing bits with
  | nil => simp
  | cons b ws ih =>
    have more : w ∣ (bits ++ msbFirst b).length := by
      rw [List.length_append, length_msbFirst]
      exact Nat.dvd_add complete dvd_rfl
    rw [List.flatMap_cons, ← List.append_assoc, ih more, wordsOf_word pos complete,
      List.append_assoc, List.singleton_append]

private theorem session_react (pos : 0 < w) (ws : List (BitVec w)) :
    AllInTime (⟨false, [], [], false⟩ : Wire w) (session ws) ∧
      (session ws).foldl Wire.react (⟨false, [], [], false⟩ : Wire w) =
        ⟨true, ws.flatMap msbFirst, [], false⟩ := by
  have opened : Between (⟨true, [], [], false⟩ : Wire w) := ⟨rfl, rfl, dvd_zero w⟩
  obtain ⟨inTime, reached⟩ := words_react pos opened ws
  exact ⟨⟨trivial, inTime⟩, reached⟩

theorem played_past (ws : List (BitVec w)) {k : ℕ} (past : (session ws).length ≤ k) :
    played ws k = .clk := by
  rw [played, List.getD_eq_getElem?_getD, List.getElem?_eq_none past, Option.getD_none]

private theorem wire_session (pos : 0 < w) (ws : List (BitVec w)) {k : ℕ}
    (past : (session ws).length ≤ k) :
    wireAfter w (played ws) k = ⟨true, ws.flatMap msbFirst, [], false⟩ := by
  induction k, past using Nat.le_induction with
  | base =>
    have reached := (session_react pos ws).2
    rw [wireAfter, ← reached]
    exact (trajectory_played _ _ _ _ le_rfl).trans (by rw [List.take_length])
  | succ k past ih =>
    rw [wireAfter, trajectory_succ, ← wireAfter, ih, played_past ws past, Wire.react]

theorem heard_session (pos : 0 < w) (ws : List (BitVec w)) {k : ℕ}
    (past : (session ws).length ≤ k) : (wireAfter w (played ws) k).heard = ws := by
  have words : wordsOf w ([] ++ ws.flatMap msbFirst) = wordsOf w [] ++ ws :=
    wordsOf_flatMap pos (by simp) ws
  rw [wire_session pos ws past, Wire.heard]
  simpa [wordsOf] using words

theorem inTime_session (pos : 0 < w) (ws : List (BitVec w)) (k : ℕ) :
    (wireAfter w (played ws) k).InTime (played ws k) := by
  rcases Nat.lt_or_ge k (session ws).length with inside | past
  · have all := allInTime_getElem (session_react pos ws).1 inside
    have before := trajectory_played Wire.react (⟨false, [], [], false⟩ : Wire w) (session ws) .clk
      inside.le
    have now : played ws k = (session ws)[k] := by
      rw [played, List.getD_eq_getElem?_getD, List.getElem?_eq_getElem inside, Option.getD_some]
    rw [now]
    rw [← before] at all
    exact all
  · rw [played_past ws past]
    trivial

end Edges

end RiscvSoc.Peripherals.SpiSession
