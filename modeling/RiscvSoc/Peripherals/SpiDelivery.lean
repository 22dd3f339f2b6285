/- GID: RiscvSoc/Peripherals/SpiDelivery
   generality: G
   utility: main
   digest: Every word on the SPI bus reaches the system clock once and in order, however the edges
   of the two clocks interleave. -/

import Mathlib.Tactic.SplitIfs
import Mathlib.Tactic.Ring
import RiscvSoc.Clocked.Ranking
import RiscvSoc.Clocked.ToggleLine
import RiscvSoc.Clocked.Trajectory
import RiscvSoc.Peripherals.SpiSlave

set_option autoImplicit false
set_option relaxedAutoImplicit false

namespace RiscvSoc.Peripherals.SpiDelivery

open RiscvSoc.Clocked.Ranking
open RiscvSoc.Clocked.ToggleLine
open RiscvSoc.Clocked.Trajectory
open RiscvSoc.Peripherals.SpiSlave

variable {w : ℕ}

section Words

def bigEndian (bits : List Bool) : ℕ := bits.foldl (fun n b => 2 * n + b.toNat) 0

/-- Word `k` of a transaction. -/
def wordAt (w : ℕ) (bits : List Bool) (k : ℕ) : BitVec w :=
  BitVec.ofNat w (bigEndian ((bits.drop (w * k)).take w))

/-- The complete words of a transaction; bits of a word that is cut short are dropped. -/
def wordsOf (w : ℕ) (bits : List Bool) : List (BitVec w) :=
  (List.range (bits.length / w)).map (wordAt w bits)

theorem bigEndian_concat (bits : List Bool) (b : Bool) :
    bigEndian (bits ++ [b]) = 2 * bigEndian bits + b.toNat := by
  simp [bigEndian]

private theorem bigEndian_append (front back : List Bool) :
    bigEndian (front ++ back) = bigEndian front * 2 ^ back.length + bigEndian back := by
  induction back using List.reverseRecOn with
  | nil => simp [bigEndian]
  | append_singleton back b ih =>
    rw [← List.append_assoc, bigEndian_concat, bigEndian_concat, ih, List.length_append,
      List.length_singleton, pow_succ]
    ring

/-- Only the last `w` bits stay in a register of that width. -/
theorem ofNat_bigEndian {back : List Bool} (length : back.length = w) (front : List Bool) :
    BitVec.ofNat w (bigEndian (front ++ back)) = BitVec.ofNat w (bigEndian back) := by
  apply BitVec.eq_of_toNat_eq
  rw [BitVec.toNat_ofNat, BitVec.toNat_ofNat, bigEndian_append, length, Nat.mul_comm,
    Nat.mul_add_mod]

private theorem shifted_ofNat (n : ℕ) (b : Bool) :
    Slave.shifted (BitVec.ofNat w n) b = BitVec.ofNat w (2 * n + b.toNat) := by
  apply BitVec.eq_of_toNat_eq
  rw [Slave.shifted, BitVec.toNat_setWidth, BitVec.toNat_concat, BitVec.toNat_ofNat,
    BitVec.toNat_ofNat, Nat.mul_comm, Nat.add_mod, Nat.mul_mod, Nat.mod_mod, ← Nat.mul_mod,
    ← Nat.add_mod]

theorem wordAt_append {bits : List Bool} {k : ℕ} (inside : w * k + w ≤ bits.length)
    (more : List Bool) : wordAt w (bits ++ more) k = wordAt w bits k := by
  rw [wordAt, wordAt, List.drop_append_of_le_length (by omega),
    List.take_append_of_le_length (by rw [List.length_drop]; omega)]

theorem wordAt_last {bits : List Bool} {k : ℕ} (total : w * k + w = bits.length) :
    wordAt w bits k = BitVec.ofNat w (bigEndian bits) := by
  have length : (bits.drop (w * k)).length = w := by
    rw [List.length_drop]
    omega
  rw [wordAt, List.take_of_length_le length.le, ← ofNat_bigEndian length (bits.take (w * k)),
    List.take_append_drop]

private theorem wordsOf_concat (pos : 0 < w) (bits : List Bool) (b : Bool) :
    wordsOf w (bits ++ [b]) = wordsOf w bits ++
      if (bits.length + 1) % w = 0 then [BitVec.ofNat w (bigEndian (bits ++ [b]))] else [] := by
  have kept : (List.range (bits.length / w)).map (wordAt w (bits ++ [b])) = wordsOf w bits := by
    apply List.map_congr_left
    intro k inside
    have complete : w * (k + 1) ≤ bits.length := by
      rw [Nat.mul_comm]
      exact (Nat.le_div_iff_mul_le pos).mp (List.mem_range.mp inside)
    exact wordAt_append (by rw [← Nat.mul_succ]; exact complete) [b]
  by_cases last : w ∣ bits.length + 1
  · have count : (bits.length + 1) / w = bits.length / w + 1 := by
      rw [Nat.succ_div, if_pos last]
    rw [if_pos (Nat.mod_eq_zero_of_dvd last), wordsOf, List.length_append, List.length_singleton,
      count, List.range_succ, List.map_append, kept]
    have total : w * (bits.length / w) + w = (bits ++ [b]).length := by
      rw [← Nat.mul_add_one, ← count, Nat.mul_div_cancel' last, List.length_append,
        List.length_singleton]
    rw [List.map_singleton, wordAt_last total]
  · have count : (bits.length + 1) / w = bits.length / w := by
      rw [Nat.succ_div, if_neg last, Nat.add_zero]
    rw [if_neg fun zero => last (Nat.dvd_of_mod_eq_zero zero), List.append_nil, wordsOf,
      List.length_append, List.length_singleton, count, kept]

end Words

section Wire

/-- What can be told from the pins: the bits since `cs_n` went low, the words of the transactions
before, and whether a word has come up since the last edge of `clk`. -/
structure Wire (w : ℕ) where
  selected : Bool
  bits : List Bool
  past : List (BitVec w)
  unsampled : Bool
  deriving DecidableEq

/-- The end of a transaction puts the toggle of the slave back; after an odd number of words this
is a flip, and the cleared register is taken for one more word. -/
def echo (w : ℕ) (bits : List Bool) : List (BitVec w) :=
  if bits.length / w % 2 = 1 then [0] else []

namespace Wire

def heard (m : Wire w) : List (BitVec w) := m.past ++ wordsOf w m.bits

def completes (m : Wire w) : Bool := m.selected && (m.bits.length + 1) % w == 0

def echoes (m : Wire w) : Bool := m.selected && m.bits.length / w % 2 == 1

def react (m : Wire w) : Edge → Wire w
  | .clk => { m with unsampled := false }
  | .sclkRise mosi =>
    if m.selected then
      { m with bits := m.bits ++ [mosi], unsampled := m.unsampled || m.completes }
    else m
  | .csRise =>
    { selected := false
      bits := []
      past := m.heard ++ echo w m.bits
      unsampled := m.unsampled || m.echoes }
  | .csFall => { m with selected := true }
  | _ => m

/-- The master leaves an edge of `clk` between a word and whatever moves the registers that hold
it: the end of the next word, or the end of the transaction. -/
def InTime (m : Wire w) : Edge → Prop
  | .sclkRise _ => m.completes = true → m.unsampled = false
  | .csRise => m.selected = true → m.unsampled = false
  | .rstRise => False
  | _ => True

instance (m : Wire w) (e : Edge) : Decidable (m.InTime e) :=
  match e with
  | .sclkRise _ => inferInstanceAs (Decidable (m.completes = true → m.unsampled = false))
  | .csRise => inferInstanceAs (Decidable (m.selected = true → m.unsampled = false))
  | .rstRise => inferInstanceAs (Decidable False)
  | .clk | .sclkFall | .csFall | .rstFall => inferInstanceAs (Decidable True)

end Wire

end Wire

section Invariant

/-- The toggle and the data on their way through the synchroniser, newest first; beside the oldest
toggle there is no data any more. -/
def line (s : Slave w) : List (Bool × BitVec w) :=
  [(s.dataReadyToggle, s.capturedData), (s.toggleSync1, s.capturedSync1),
    (s.toggleSync2, s.capturedSync2), (s.toggleSync3, 0)]

/-- The words that leave within the next `k` edges of `clk`, oldest first. -/
def due (s : Slave w) : ℕ → List (BitVec w)
  | 0 => []
  | k + 1 => (if s.dValid then [s.dout] else []) ++ onTheWay ((line s).drop (3 - k))

def inFlight (s : Slave w) : List (BitVec w) := due s 4

def taken (s : Spi w) : Edge → List (BitVec w)
  | .clk => if s.slave.dValid then [s.slave.dout] else []
  | _ => []

theorem taken_bus {s : Spi w} {e : Edge} (bus : e ≠ .clk) : taken s e = [] := by
  cases e with
  | clk => exact absurd rfl bus
  | _ => rfl

/-- The slave holds what has been on the wire since `cs_n` went low. -/
structure Follows (s : Spi w) (m : Wire w) : Prop where
  rst : s.rst = false
  csN : s.csN = !m.selected
  shiftIn : s.slave.shiftIn = BitVec.ofNat w (bigEndian m.bits)
  bitCount : s.slave.bitCount = m.bits.length % w
  toggle : s.slave.dataReadyToggle = decide (m.bits.length / w % 2 = 1)
  empty : m.selected = false → m.bits = []
  cleared : m.selected = false → s.slave.capturedData = 0
  sampled : m.unsampled = false → s.slave.dataReadyToggle = s.slave.toggleSync1

def news (m : Wire w) : Edge → List (BitVec w)
  | .sclkRise mosi =>
    if m.completes then [BitVec.ofNat w (bigEndian (m.bits ++ [mosi]))] else []
  | .csRise => if m.echoes then [0] else []
  | _ => []

variable {s : Spi w} {m : Wire w} {e : Edge}

private theorem last_iff (pos : 0 < w) (n : ℕ) : n % w = w - 1 ↔ (n + 1) % w = 0 := by
  have small := Nat.mod_lt n pos
  rw [← Nat.mod_add_mod]
  by_cases last : n % w = w - 1
  · simp [last, Nat.sub_add_cancel pos]
  · rw [Nat.mod_eq_of_lt (show n % w + 1 < w by omega)]
    omega

theorem heard_react (pos : 0 < w) (follows : Follows s m) (e : Edge) :
    (m.react e).heard = m.heard ++ news m e := by
  cases e with
  | sclkRise mosi =>
    cases sel : m.selected with
    | false => simp [Wire.react, news, Wire.completes, sel]
    | true =>
      simp only [Wire.react, sel, if_true, Wire.heard, wordsOf_concat pos, news, Wire.completes,
        Bool.true_and, beq_iff_eq, List.append_assoc]
  | csRise =>
    cases sel : m.selected with
    | false =>
      have none := follows.empty sel
      simp [Wire.react, Wire.heard, news, Wire.echoes, sel, none, echo, wordsOf]
    | true =>
      simp only [Wire.react, Wire.heard, news, Wire.echoes, sel, Bool.true_and, beq_iff_eq, echo,
        wordsOf, List.length_nil, Nat.zero_div, List.range_zero, List.map_nil, List.append_nil]
  | clk => exact (List.append_nil _).symm
  | sclkFall => exact (List.append_nil _).symm
  | csFall => exact (List.append_nil _).symm
  | rstRise => exact (List.append_nil _).symm
  | rstFall => exact (List.append_nil _).symm

private theorem dValid_posedge (s : Slave w) :
    (if s.posedge.dValid then [s.posedge.dout] else []) =
      if s.toggleSync2 = s.toggleSync3 then [] else [s.capturedSync2] := by
  by_cases same : s.toggleSync2 = s.toggleSync3 <;> simp [Slave.posedge, same]

private theorem onTheWay_posedge (s : Slave w) (front : List (Bool × BitVec w)) :
    (if s.posedge.dValid then [s.posedge.dout] else []) ++
        onTheWay (front ++ [(s.toggleSync2, 0)]) =
      onTheWay (front ++ [(s.toggleSync2, s.capturedSync2), (s.toggleSync3, 0)]) := by
  rw [dValid_posedge, onTheWay_concat, onTheWay_oldest front s.toggleSync2 0 s.capturedSync2]

private theorem due_posedge (s : Slave w) {k : ℕ} (le : k ≤ 3) :
    (if s.dValid then [s.dout] else []) ++ due s.posedge k = due s (k + 1) := by
  rw [due]
  apply congrArg
  match k, le with
  | 0, _ => rfl
  | 1, _ => exact onTheWay_posedge s []
  | 2, _ => exact onTheWay_posedge s [(s.toggleSync1, s.capturedSync1)]
  | 3, _ =>
    exact onTheWay_posedge s
      [(s.dataReadyToggle, s.capturedData), (s.toggleSync1, s.capturedSync1)]

private theorem inFlight_posedge (s : Slave w) :
    (if s.dValid then [s.dout] else []) ++ inFlight s.posedge = inFlight s := by
  have sampled : inFlight s.posedge = due s.posedge 3 :=
    congrArg (_ ++ ·) (onTheWay_settled rfl)
  rw [sampled, due_posedge s le_rfl, inFlight]

private theorem inFlight_shift (sampled : s.slave.dataReadyToggle = s.slave.toggleSync1)
    (last : s.slave.bitCount = w - 1) (mosi : Bool) :
    inFlight (s.slave.shift mosi) =
      inFlight s.slave ++ [Slave.shifted s.slave.shiftIn mosi] := by
  rw [Slave.shift, if_pos last]
  simp only [inFlight, due, line, Nat.sub_self, List.drop_zero]
  rw [onTheWay_flip (a := (s.slave.dataReadyToggle, s.slave.capturedData)) sampled,
    List.append_assoc]

private theorem inFlight_shift_inside (inside : s.slave.bitCount ≠ w - 1) (mosi : Bool) :
    inFlight (s.slave.shift mosi) = inFlight s.slave := by
  rw [Slave.shift, if_neg inside]
  rfl

private theorem inFlight_deselect (sampled : s.slave.dataReadyToggle = s.slave.toggleSync1) :
    inFlight s.slave.deselect =
      inFlight s.slave ++ if s.slave.dataReadyToggle then [0] else [] := by
  simp only [inFlight, due, line, Slave.deselect, Nat.sub_self, List.drop_zero]
  cases toggle : s.slave.dataReadyToggle with
  | false =>
    rw [toggle] at sampled
    rw [onTheWay_hold (a := (false, s.slave.capturedData)) sampled]
    exact (List.append_nil _).symm
  | true =>
    rw [toggle] at sampled
    rw [show false = !true from rfl,
      onTheWay_flip (a := (true, s.slave.capturedData)) sampled, List.append_assoc]
    rfl

private theorem Follows.deselect (follows : Follows s m) (sel : m.selected = false) :
    s.slave.deselect = s.slave := by
  have shiftIn : s.slave.shiftIn = 0 := by
    rw [follows.shiftIn, follows.empty sel]
    rfl
  have bitCount : s.slave.bitCount = 0 := by
    rw [follows.bitCount, follows.empty sel, List.length_nil, Nat.zero_mod]
  have toggle : s.slave.dataReadyToggle = false := by
    rw [follows.toggle, follows.empty sel, List.length_nil, Nat.zero_div]
    rfl
  rw [Slave.deselect, ← shiftIn, ← bitCount, ← toggle]
  nth_rewrite 2 [shiftIn]
  rw [← follows.cleared sel]

private theorem Follows.last (follows : Follows s m) (pos : 0 < w) (sel : m.selected = true) :
    s.slave.bitCount = w - 1 ↔ m.completes = true := by
  rw [follows.bitCount, last_iff pos, Wire.completes, sel, Bool.true_and, beq_iff_eq]

private theorem Follows.word (follows : Follows s m) (mosi : Bool) :
    Slave.shifted s.slave.shiftIn mosi = BitVec.ofNat w (bigEndian (m.bits ++ [mosi])) := by
  rw [follows.shiftIn, shifted_ofNat, bigEndian_concat]

private theorem Follows.echoes (follows : Follows s m) (sel : m.selected = true) :
    s.slave.dataReadyToggle = m.echoes := by
  rw [follows.toggle, Wire.echoes, sel, Bool.true_and]
  rfl

private theorem inFlight_react (pos : 0 < w) (follows : Follows s m) (inTime : m.InTime e)
    (din : BitVec w) :
    taken s e ++ inFlight (s.react din e).slave = inFlight s.slave ++ news m e := by
  cases e with
  | clk =>
    simp only [Spi.react, follows.rst, Bool.false_eq_true, if_false, taken, news, List.append_nil]
    exact inFlight_posedge s.slave
  | sclkRise mosi =>
    simp only [Spi.react, follows.rst, follows.csN, Bool.false_or, taken, List.nil_append, news]
    cases sel : m.selected with
    | false =>
      have none : m.completes = false := by rw [Wire.completes, sel, Bool.false_and]
      simp [follows.deselect sel, none]
    | true =>
      simp only [Bool.not_true, Bool.false_eq_true, if_false]
      by_cases last : m.completes = true
      · rw [inFlight_shift (follows.sampled (inTime last)) ((follows.last pos sel).mpr last),
          follows.word, if_pos last]
      · rw [inFlight_shift_inside fun full => last ((follows.last pos sel).mp full), if_neg last,
          List.append_nil]
  | csRise =>
    simp only [Spi.react, follows.csN, taken, List.nil_append, news]
    cases sel : m.selected with
    | false => simp [Wire.echoes, sel]
    | true =>
      simp only [Bool.not_true, Bool.false_eq_true, if_false]
      rw [inFlight_deselect (follows.sampled (inTime sel)), follows.echoes sel]
  | sclkFall =>
    simp only [Spi.react, follows.rst, Bool.false_eq_true, if_false]
    exact (List.append_nil _).symm
  | csFall => exact (List.append_nil _).symm
  | rstRise => exact inTime.elim
  | rstFall => exact (List.append_nil _).symm

private theorem follows_sclkRise (pos : 0 < w) (follows : Follows s m) (din : BitVec w)
    (mosi : Bool) :
    Follows (s.react din (.sclkRise mosi)) (m.react (.sclkRise mosi)) := by
  simp only [Spi.react, follows.rst, follows.csN, Bool.false_or, Wire.react]
  cases sel : m.selected with
  | false =>
    simp only [Bool.not_false, if_true, Bool.false_eq_true, if_false, follows.deselect sel]
    exact ⟨rfl, by rw [sel]; rfl, follows.shiftIn, follows.bitCount, follows.toggle,
      follows.empty, follows.cleared, follows.sampled⟩
  | true =>
    simp only [Bool.not_true, Bool.false_eq_true, if_false, if_true]
    have length : (m.bits ++ [mosi]).length = m.bits.length + 1 := by
      rw [List.length_append, List.length_singleton]
    rw [Slave.shift]
    by_cases full : s.slave.bitCount = w - 1
    · have last := (follows.last pos sel).mp full
      have zero : (m.bits.length + 1) % w = 0 := by
        rw [← last_iff pos, ← follows.bitCount, full]
      rw [if_pos full]
      refine ⟨rfl, rfl, follows.word mosi, ?_, ?_, nofun, nofun, ?_⟩
      · rw [length, zero]
      · simp only [length, Nat.succ_div, if_pos (Nat.dvd_of_mod_eq_zero zero), follows.toggle]
        rcases Nat.mod_two_eq_zero_or_one (m.bits.length / w) with even | odd
        · simp [Nat.add_mod, even]
        · simp [Nat.add_mod, odd]
      · intro none
        simp [last] at none
    · have inside : (m.bits.length + 1) % w ≠ 0 := by
        rw [Ne, ← last_iff pos, ← follows.bitCount]
        exact full
      rw [if_neg full]
      refine ⟨rfl, rfl, follows.word mosi, ?_, ?_, nofun, nofun, ?_⟩
      · have small := Nat.mod_lt m.bits.length pos
        have wide := Nat.le_pow_clog Nat.one_lt_two w
        have below : m.bits.length % w + 1 < w := by
          rw [← follows.bitCount] at small ⊢
          omega
        rw [length, ← Nat.mod_add_mod m.bits.length w 1, Nat.mod_eq_of_lt below]
        simp only [follows.bitCount]
        apply Nat.mod_eq_of_lt
        rw [pow_succ]
        omega
      · simp only [length, Nat.succ_div,
          if_neg fun divides => inside (Nat.mod_eq_zero_of_dvd divides), Nat.add_zero]
        exact follows.toggle
      · intro none
        exact follows.sampled (Bool.or_eq_false_iff.mp none).1

private theorem follows_react (pos : 0 < w) (follows : Follows s m) (inTime : m.InTime e)
    (din : BitVec w) :
    Follows (s.react din e) (m.react e) := by
  cases e with
  | clk =>
    simp only [Spi.react, follows.rst, Bool.false_eq_true, if_false]
    exact ⟨rfl, follows.csN, follows.shiftIn, follows.bitCount, follows.toggle, follows.empty,
      follows.cleared, fun _ => rfl⟩
  | sclkRise mosi => exact follows_sclkRise pos follows din mosi
  | csRise =>
    simp only [Spi.react, follows.csN, Wire.react]
    cases sel : m.selected with
    | false =>
      have none := follows.empty sel
      simp only [Bool.not_false, if_true]
      refine ⟨follows.rst, by rw [follows.csN, sel], ?_, ?_, ?_, fun _ => rfl,
        fun _ => follows.cleared sel, fun settled => ?_⟩
      · rw [follows.shiftIn, none]
      · rw [follows.bitCount, none]
      · rw [follows.toggle, none]
      · exact follows.sampled (Bool.or_eq_false_iff.mp settled).1
    | true =>
      simp only [Bool.not_true, Bool.false_eq_true, if_false]
      refine ⟨follows.rst, rfl, rfl, ?_, ?_, fun _ => rfl, fun _ => rfl, fun settled => ?_⟩
      · exact (Nat.zero_mod w).symm
      · rw [List.length_nil, Nat.zero_div]
        rfl
      · obtain ⟨sampled, even⟩ := Bool.or_eq_false_iff.mp settled
        rw [← follows.echoes sel] at even
        exact even.symm.trans (follows.sampled sampled)
  | sclkFall =>
    simp only [Spi.react, follows.rst, Bool.false_eq_true, if_false]
    exact ⟨rfl, follows.csN, follows.shiftIn, follows.bitCount, follows.toggle, follows.empty,
      follows.cleared, follows.sampled⟩
  | csFall =>
    exact ⟨follows.rst, rfl, follows.shiftIn, follows.bitCount, follows.toggle, nofun, nofun,
      follows.sampled⟩
  | rstRise => exact inTime.elim
  | rstFall => exact ⟨rfl, follows.csN, follows.shiftIn, follows.bitCount, follows.toggle,
      follows.empty, follows.cleared, follows.sampled⟩

end Invariant

section Run

/-- The slave before edge `n` of a run. -/
abbrev spiAfter (s : Spi w) (din : BitVec w) (edges : ℕ → Edge) : ℕ → Spi w :=
  trajectory (Spi.react din) s edges

/-- The bus before edge `n`, watched from the outside. -/
abbrev wireAfter (w : ℕ) (edges : ℕ → Edge) : ℕ → Wire w :=
  trajectory Wire.react ⟨false, [], [], false⟩ edges

/-- The words delivered to the logic behind the slave before edge `n`. -/
abbrev delivered (s : Spi w) (din : BitVec w) (edges : ℕ → Edge) : ℕ → List (BitVec w) :=
  emitted (Spi.react din) taken s edges

/-- No transaction is open and nothing is on its way. -/
structure Idle (s : Spi w) : Prop where
  rst : s.rst = false
  csN : s.csN = true
  cleared : s.slave.deselect = s.slave
  synchronised : s.slave.toggleSync1 = false ∧ s.slave.toggleSync2 = false ∧
    s.slave.toggleSync3 = false
  dValid : s.slave.dValid = false

/-- Edges of `clk` between two moments. -/
def clocks (edges : ℕ → Edge) : ℕ → ℕ → ℕ := occurrences fun k => decide (edges k = .clk)

variable {s : Spi w} {edges : ℕ → Edge}

private theorem follows_idle (idle : Idle s) : Follows s ⟨false, [], [], false⟩ := by
  have cleared := idle.cleared
  refine ⟨idle.rst, idle.csN, ?_, ?_, ?_, fun _ => rfl, fun _ => ?_, fun _ => ?_⟩
  · rw [← cleared]
    rfl
  · rw [← cleared, List.length_nil, Nat.zero_mod]
    rfl
  · rw [← cleared, List.length_nil, Nat.zero_div]
    rfl
  · rw [← cleared]
    rfl
  · rw [idle.synchronised.1, ← cleared]
    rfl

private theorem inFlight_idle (idle : Idle s) : inFlight s.slave = [] := by
  obtain ⟨one, two, three⟩ := idle.synchronised
  have toggle : s.slave.dataReadyToggle = false := by
    rw [← idle.cleared]
    rfl
  simp [inFlight, due, line, onTheWay, idle.dValid, toggle, one, two, three]

theorem follows_after (pos : 0 < w) (idle : Idle s) (din : BitVec w) (n : ℕ)
    (inTime : ∀ k < n, (wireAfter w edges k).InTime (edges k)) :
    Follows (spiAfter s din edges n) (wireAfter w edges n) := by
  induction n with
  | zero => exact follows_idle idle
  | succ n ih =>
    exact follows_react pos (ih fun k lt => inTime k (by omega)) (inTime n (by omega)) din

private theorem delivered_inFlight (pos : 0 < w) (idle : Idle s) (din : BitVec w) (n : ℕ)
    (inTime : ∀ k < n, (wireAfter w edges k).InTime (edges k)) :
    delivered s din edges n ++ inFlight (spiAfter s din edges n).slave =
      (wireAfter w edges n).heard := by
  induction n with
  | zero =>
    change [] ++ inFlight s.slave = (⟨false, [], [], false⟩ : Wire w).heard
    simp [inFlight_idle idle, Wire.heard, wordsOf]
  | succ n ih =>
    have earlier : ∀ k < n, (wireAfter w edges k).InTime (edges k) :=
      fun k lt => inTime k (by omega)
    have follows := follows_after pos idle din n earlier
    rw [delivered, emitted_succ, List.append_assoc, spiAfter, trajectory_succ,
      inFlight_react pos follows (inTime n (by omega)) din, ← List.append_assoc, ih earlier,
      wireAfter, trajectory_succ, heard_react pos follows]

private theorem due_react {m : Wire w} {e : Edge} (follows : Follows s m) (inTime : m.InTime e)
    (bus : e ≠ .clk) (din : BitVec w) {k : ℕ} (le : k ≤ 3) :
    due (s.react din e).slave k = due s.slave k := by
  have kept : ∀ t : Slave w, t.toggleSync1 = s.slave.toggleSync1 →
      t.toggleSync2 = s.slave.toggleSync2 → t.toggleSync3 = s.slave.toggleSync3 →
      t.capturedSync1 = s.slave.capturedSync1 → t.capturedSync2 = s.slave.capturedSync2 →
      t.dout = s.slave.dout → t.dValid = s.slave.dValid → due t k = due s.slave k := by
    intro t one two three first second dout dValid
    match k, le with
    | 0, _ => rfl
    | 1, _ => simp [due, line, dout, dValid, three]
    | 2, _ => simp [due, line, dout, dValid, two, three, second]
    | 3, _ => simp [due, line, dout, dValid, one, two, three, first, second]
  cases e with
  | clk => exact absurd rfl bus
  | sclkRise mosi =>
    simp only [Spi.react, Slave.shift]
    split_ifs <;> exact kept _ rfl rfl rfl rfl rfl rfl rfl
  | csRise =>
    simp only [Spi.react]
    split_ifs
    · rfl
    · exact kept _ rfl rfl rfl rfl rfl rfl rfl
  | sclkFall =>
    simp only [Spi.react, follows.rst, Bool.false_eq_true, if_false]
    exact kept _ rfl rfl rfl rfl rfl rfl rfl
  | csFall => rfl
  | rstRise => exact inTime.elim
  | rstFall => rfl

private theorem delivered_due (pos : 0 < w) (idle : Idle s) (din : BitVec w) (m k : ℕ)
    (inTime : ∀ j < m + k, (wireAfter w edges j).InTime (edges j)) :
    delivered s din edges m ++ inFlight (spiAfter s din edges m).slave <+:
      delivered s din edges (m + k) ++
        due (spiAfter s din edges (m + k)).slave (4 - clocks edges m (m + k)) := by
  induction k with
  | zero =>
    have none : clocks edges m (m + 0) = 0 := by simp [clocks, occurrences]
    rw [none]
    exact List.prefix_refl _
  | succ k ih =>
    refine (ih fun j lt => inTime j (by omega)).trans ?_
    have follows := follows_after pos idle din (m + k) fun j lt => inTime j (by omega)
    have now := inTime (m + k) (by omega)
    rw [delivered, ← Nat.add_assoc, emitted_succ, List.append_assoc, spiAfter, trajectory_succ,
      clocks, occurrences_succ (Nat.le_add_right m k)]
    apply (List.prefix_append_right_inj _).mpr
    generalize occurrences (fun k => decide (edges k = .clk)) m (m + k) = passed
    by_cases clk : edges (m + k) = .clk
    · simp only [clk, decide_true, Bool.toNat_true, taken, Spi.react, follows.rst,
        Bool.false_eq_true, if_false]
      rcases Nat.lt_or_ge passed 4 with some | all
      · rw [due_posedge _ (by omega), show 4 - (passed + 1) + 1 = 4 - passed by omega]
      · rw [Nat.sub_eq_zero_of_le all]
        exact List.nil_prefix
    · simp only [clk, decide_false, Bool.toNat_false, Nat.add_zero]
      rcases Nat.eq_zero_or_pos passed with rfl | some
      · have moved := inFlight_react pos follows now din
        rw [inFlight, inFlight] at moved
        rw [Nat.sub_zero, moved]
        exact List.prefix_append _ _
      · rw [due_react follows now clk din (by omega), taken_bus clk]
        exact List.prefix_refl _

/-- However the edges of the two clocks interleave, the words on the bus come out of the slave in
order, none twice and none left out, and each within four edges of `clk`. -/
theorem words_cross_in_order (pos : 0 < w) (idle : Idle s) (din : BitVec w) (n : ℕ)
    (inTime : ∀ k < n, (wireAfter w edges k).InTime (edges k)) :
    delivered s din edges n <+: (wireAfter w edges n).heard ∧
      ∀ m ≤ n, 4 ≤ clocks edges m n → (wireAfter w edges m).heard <+: delivered s din edges n := by
  refine ⟨?_, fun m le enough => ?_⟩
  · rw [← delivered_inFlight pos idle din n inTime]
    exact List.prefix_append _ _
  · obtain ⟨k, rfl⟩ := Nat.exists_eq_add_of_le le
    have out := delivered_due pos idle din m k inTime
    rw [Nat.sub_eq_zero_of_le enough, due, List.append_nil,
      delivered_inFlight pos idle din m fun j lt => inTime j (by omega)] at out
    exact out

/-- The slave after a reset, `cs_n` high. -/
def resetSpi (w : ℕ) : Spi w where
  rst := false
  csN := true
  slave := ⟨0, 0, 0, false, 0, true, false, false, false, 0, 0, 0, false⟩

theorem idle_reset (w : ℕ) : Idle (resetSpi w) := ⟨rfl, rfl, rfl, ⟨rfl, rfl, rfl⟩, rfl⟩

/-- A transaction of one word with two edges of `clk` in it, and then `clk` alone. -/
def oneWord (k : ℕ) : Edge :=
  [.csFall, .sclkRise true, .sclkRise false, .sclkRise true, .clk, .sclkRise false,
    .sclkRise false, .sclkRise true, .sclkRise false, .sclkRise true, .clk, .csRise].getD k .clk

theorem words_cross_in_order_oneWord :
    delivered (resetSpi 8) 0 oneWord 20 <+: (wireAfter 8 oneWord 20).heard ∧
      ∀ m ≤ 20, 4 ≤ clocks oneWord m 20 →
        (wireAfter 8 oneWord m).heard <+: delivered (resetSpi 8) 0 oneWord 20 :=
  words_cross_in_order (by decide) (idle_reset 8) 0 20 (by decide +kernel)

-- the end of the transaction is taken for a zero word
example : delivered (resetSpi 8) 0 oneWord 20 = [0xA5, 0x00] := by decide +kernel

end Run

end RiscvSoc.Peripherals.SpiDelivery
