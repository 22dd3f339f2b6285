/- GID: RiscvSoc/Clocked/Countdown
   generality: G
   utility: library
   digest: Counters that run down to zero and start again, and when they are at zero. -/

import Mathlib.Data.Nat.Notation
import Mathlib.Tactic.SplitIfs

set_option autoImplicit false
set_option relaxedAutoImplicit false

namespace RiscvSoc.Clocked.Countdown

/-- One step of a counter that is loaded with `reload` at zero. -/
def countNext (reload c : ℕ) : ℕ := if c = 0 then reload else c - 1

/-- The count `n` steps after it was `c`: down to zero first, then round and round. -/
def countAfter (reload c n : ℕ) : ℕ := if n ≤ c then c - n else reload - (n - c - 1) % (reload + 1)

variable {reload c n : ℕ}

theorem countAfter_down (le : n ≤ c) : countAfter reload c n = c - n := if_pos le

theorem countAfter_round (reload c d : ℕ) :
    countAfter reload c (c + 1 + d) = reload - d % (reload + 1) := by
  rw [countAfter, if_neg (by omega), show c + 1 + d - c - 1 = d by omega]

/-- The remainder goes up by one, unless it stands at the last one. -/
theorem succ_mod (reload d : ℕ) :
    (d + 1) % (reload + 1) = if d % (reload + 1) = reload then 0 else d % (reload + 1) + 1 := by
  have small : d % (reload + 1) < reload + 1 := Nat.mod_lt _ (by omega)
  rw [← Nat.mod_add_mod]
  split_ifs with last
  · rw [last, Nat.mod_self]
  · exact Nat.mod_eq_of_lt (by omega)

theorem countAfter_succ (reload c n : ℕ) :
    countAfter reload c (n + 1) = countNext reload (countAfter reload c n) := by
  rcases Nat.lt_trichotomy n c with down | rfl | round
  · rw [countAfter_down (by omega), countAfter_down (by omega), countNext,
      if_neg (by omega : ¬c - n = 0)]
    omega
  · rw [countAfter_down (Nat.le_refl n), countNext, if_pos (Nat.sub_self n)]
    exact countAfter_round reload n 0
  · obtain ⟨d, rfl⟩ : ∃ d, n = c + 1 + d := ⟨n - c - 1, by omega⟩
    have small : d % (reload + 1) < reload + 1 := Nat.mod_lt _ (by omega)
    rw [Nat.add_assoc, countAfter_round, countAfter_round, succ_mod, countNext]
    generalize d % (reload + 1) = r at small ⊢
    split_ifs <;> omega

/-- Zero comes after `c` steps and every `reload + 1` steps from then on. -/
theorem countAfter_eq_zero :
    countAfter reload c n = 0 ↔ c ≤ n ∧ (n - c) % (reload + 1) = 0 := by
  rcases Nat.lt_trichotomy n c with down | rfl | round
  · rw [countAfter_down (by omega)]
    omega
  · rw [countAfter_down (Nat.le_refl n), Nat.sub_self, Nat.zero_mod]
    simp
  · obtain ⟨d, rfl⟩ : ∃ d, n = c + 1 + d := ⟨n - c - 1, by omega⟩
    have small : d % (reload + 1) < reload + 1 := Nat.mod_lt _ (by omega)
    rw [countAfter_round, show c + 1 + d - c = d + 1 by omega, succ_mod]
    generalize d % (reload + 1) = r at small ⊢
    split_ifs with last
    · omega
    · rw [and_false, iff_false]
      omega

/-- A sequence that steps so is the counter. -/
theorem eq_countAfter {count : ℕ → ℕ} {m t : ℕ}
    (steps : ∀ k, m ≤ k → k < t → count (k + 1) = countNext reload (count k)) :
    ∀ k, m + k ≤ t → count (m + k) = countAfter reload (count m) k := by
  intro k
  induction k with
  | zero => exact fun _ => (countAfter_down (Nat.zero_le _)).symm
  | succ k ih =>
    intro le
    rw [countAfter_succ, ← ih (by omega)]
    exact steps (m + k) (by omega) (by omega)

end RiscvSoc.Clocked.Countdown
