/- GID: RiscvSoc/Clocked/Ranking
   generality: G
   utility: library
   digest: Ranks that fall along a run: how often an event can occur, and what must be reached. -/

import Mathlib.Algebra.BigOperators.Intervals

set_option autoImplicit false
set_option relaxedAutoImplicit false

namespace RiscvSoc.Clocked.Ranking

variable {rank : ℕ → ℕ} {m n : ℕ}

/-- Clocks of an interval in which an event occurs. -/
def occurrences (event : ℕ → Bool) (m n : ℕ) : ℕ :=
  ((Finset.Ico m n).filter fun k => event k = true).card

theorem occurrences_succ {event : ℕ → Bool} (le : m ≤ n) :
    occurrences event m (n + 1) = occurrences event m n + (event n).toNat := by
  simp only [occurrences, Finset.card_filter]
  rw [Finset.sum_Ico_succ_top le]
  cases event n <;> rfl

/-- A rank that falls in every clock with the event, and rises in none, bounds the number of
those clocks. -/
theorem occurrences_add_rank_le {event : ℕ → Bool} (le : m ≤ n)
    (pays : ∀ k, m ≤ k → k < n → rank (k + 1) + (event k).toNat ≤ rank k) :
    occurrences event m n + rank n ≤ rank m := by
  induction n, le using Nat.le_induction with
  | base => simp [occurrences]
  | succ n le ih =>
    have before := ih fun k lo hi => pays k lo (by omega)
    have now := pays n le (by omega)
    rw [occurrences_succ le]
    omega

/-- A rank that falls in every clock with the event, unless credit comes in, bounds those clocks by
the credit that has come in. -/
theorem occurrences_add_rank_le_credit {event : ℕ → Bool} {credit : ℕ → ℕ} (le : m ≤ n)
    (pays : ∀ k, m ≤ k → k < n →
      rank (k + 1) + (event k).toNat + credit k ≤ rank k + credit (k + 1)) :
    occurrences event m n + rank n + credit m ≤ rank m + credit n := by
  induction n, le using Nat.le_induction with
  | base => simp [occurrences]
  | succ n le ih =>
    have before := ih fun k lo hi => pays k lo (by omega)
    have now := pays n le (by omega)
    rw [occurrences_succ le]
    omega

theorem occurrences_mono {event event' : ℕ → Bool}
    (implies : ∀ k, m ≤ k → k < n → event k = true → event' k = true) :
    occurrences event m n ≤ occurrences event' m n := by
  apply Finset.card_le_card
  intro k inside
  simp only [Finset.mem_filter, Finset.mem_Ico] at inside ⊢
  exact ⟨inside.1, implies k inside.1.1 inside.1.2 inside.2⟩

theorem occurrences_le_of_le {event : ℕ → Bool} {k : ℕ} (le : n ≤ k) :
    occurrences event m n ≤ occurrences event m k := by
  apply Finset.card_le_card
  apply Finset.filter_subset_filter
  exact Finset.Ico_subset_Ico_right le

theorem occurrences_add {event : ℕ → Bool} {k : ℕ} (le : m ≤ k) (le' : k ≤ n) :
    occurrences event m n = occurrences event m k + occurrences event k n := by
  induction n, le' using Nat.le_induction with
  | base => simp [occurrences]
  | succ n le' ih => rw [occurrences_succ (le.trans le'), occurrences_succ le', ih, Nat.add_assoc]

/-- The count goes up by one at a time. -/
theorem exists_occurrences_eq {event : ℕ → Bool} {c : ℕ} (le : m ≤ n)
    (enough : c ≤ occurrences event m n) : ∃ k, m ≤ k ∧ k ≤ n ∧ occurrences event m k = c := by
  induction n, le using Nat.le_induction with
  | base => exact ⟨m, le_rfl, le_rfl, by simp_all [occurrences]⟩
  | succ n le ih =>
    rcases Nat.lt_or_ge (occurrences event m n) c with below | above
    · refine ⟨n + 1, by omega, le_rfl, ?_⟩
      rw [occurrences_succ le] at enough ⊢
      have one := Bool.toNat_le (event n)
      omega
    · obtain ⟨k, from_m, to_n, count⟩ := ih above
      exact ⟨k, from_m, by omega, count⟩

/-- A rank that falls in every clock in which the goal does not hold runs out. -/
theorem reached_within {goal : ℕ → Prop}
    (falls : ∀ k ≤ rank 0, ¬goal k → rank (k + 1) < rank k) : ∃ k ≤ rank 0, goal k := by
  by_contra never
  have away : ∀ k ≤ rank 0, ¬goal k := fun k le here => never ⟨k, le, here⟩
  have bound : ∀ k ≤ rank 0 + 1, rank k + k ≤ rank 0 := by
    intro k
    induction k with
    | zero => exact fun _ => le_rfl
    | succ k ih =>
      intro le
      have earlier := ih (by omega)
      have lower := falls k (by omega) (away k (by omega))
      omega
  have past := bound (rank 0 + 1) le_rfl
  omega

end RiscvSoc.Clocked.Ranking
