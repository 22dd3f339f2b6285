/- GID: RiscvSoc/Clocked/Recurrence
   generality: G
   utility: library
   digest: Conditions that come back from every state, and counters that keep reaching a value. -/

import Mathlib.Data.Nat.Find
import Mathlib.Logic.Function.Iterate

set_option autoImplicit false
set_option relaxedAutoImplicit false

namespace RiscvSoc.Clocked.Recurrence

variable {σ : Type*} {next : σ → σ} {p q enabled : σ → Prop} {count : σ → ℕ}

/-- An autonomous machine meets `p` sooner or later, from whatever state it starts. -/
def Recurrent (next : σ → σ) (p : σ → Prop) : Prop := ∀ s, ∃ n, p (next^[n] s)

theorem Recurrent.after (recurrent : Recurrent next p) (implies : ∀ s, p s → q (next s)) :
    Recurrent next q := by
  intro s
  obtain ⟨n, hn⟩ := recurrent s
  refine ⟨n + 1, ?_⟩
  rw [Function.iterate_succ_apply']
  exact implies _ hn

theorem Recurrent.later (recurrent : Recurrent next p) (s : σ) (m : ℕ) :
    ∃ n, m ≤ n ∧ p (next^[n] s) := by
  obtain ⟨n, hn⟩ := recurrent (next^[m] s)
  exact ⟨n + m, by omega, by rwa [Function.iterate_add_apply]⟩

/-- `count` moves in the enabled clocks only; there it goes up by one modulo `period`, unless it
stands at `target`, where it may do as it likes. -/
structure Counts (next : σ → σ) (enabled : σ → Prop) (count : σ → ℕ) (period target : ℕ) :
    Prop where
  hold : ∀ s, ¬ enabled s → count (next s) = count s
  step : ∀ s, enabled s → count s ≠ target → count (next s) = (count s + 1) % period

namespace Counts

variable {period target : ℕ}

/-- The next enabled clock finds the count where it is now. -/
theorem next_enabled (counts : Counts next enabled count period target)
    (recurrent : Recurrent next enabled) (s : σ) :
    ∃ n, enabled (next^[n] s) ∧ count (next^[n] s) = count s := by
  classical
  have occurs := recurrent s
  refine ⟨Nat.find occurs, Nat.find_spec occurs, ?_⟩
  have held : ∀ n ≤ Nat.find occurs, count (next^[n] s) = count s := by
    intro n hn
    induction n with
    | zero => rfl
    | succ n ih =>
      rw [Function.iterate_succ_apply', counts.hold _ (Nat.find_min occurs (by omega)),
        ih (by omega)]
  exact held _ le_rfl

/-- Increments from `c` to `target`, with the wrap if `c` has passed it. -/
def distance (period target c : ℕ) : ℕ :=
  if c ≤ target then target - c else period - c + target

theorem distance_step {c : ℕ} (small : c < period) (lt : target < period) (ne : c ≠ target) :
    distance period target ((c + 1) % period) < distance period target c := by
  unfold distance
  rcases Nat.lt_or_ge (c + 1) period with inside | wrap
  · rw [Nat.mod_eq_of_lt inside]
    split_ifs <;> omega
  · obtain rfl : period = c + 1 := by omega
    rw [Nat.mod_self]
    split_ifs <;> omega

/-- Unless the count stands at `target`, the edge behind that clock moves it up. -/
theorem next_increment (counts : Counts next enabled count period target)
    (recurrent : Recurrent next enabled) (s : σ) :
    ∃ n, enabled (next^[n] s) ∧ count (next^[n] s) = count s ∧
      (count s ≠ target → count (next^[n + 1] s) = (count s + 1) % period) := by
  obtain ⟨n, en, same⟩ := counts.next_enabled recurrent s
  refine ⟨n, en, same, fun away => ?_⟩
  rw [Function.iterate_succ_apply', counts.step _ en (by rwa [same]), same]

/-- From a count in range, by induction on the increments still to come. -/
theorem reaches_target (counts : Counts next enabled count period target)
    (recurrent : Recurrent next enabled) (lt : target < period) :
    ∀ d s, distance period target (count s) = d → count s < period →
      ∃ n, enabled (next^[n] s) ∧ count (next^[n] s) = target := by
  intro d
  induction d using Nat.strong_induction_on with
  | _ d ih =>
    intro s dist small
    obtain ⟨n, en, same, moves⟩ := counts.next_increment recurrent s
    rcases eq_or_ne (count s) target with here | away
    · exact ⟨n, en, same.trans here⟩
    · have moved := moves away
      have closer := distance_step small lt away
      rw [dist, ← moved] at closer
      obtain ⟨m, hm⟩ := ih _ closer _ rfl (by rw [moved]; exact Nat.mod_lt _ (by omega))
      exact ⟨m + (n + 1), by rwa [Function.iterate_add_apply]⟩

/-- A counter that is enabled again and again is at `target` in an enabled clock again and again;
a count out of range is back in range after one increment. -/
theorem recurrent (counts : Counts next enabled count period target)
    (recurrent : Recurrent next enabled) (lt : target < period) :
    Recurrent next fun s => enabled s ∧ count s = target := by
  intro s
  obtain ⟨n, en, same, moves⟩ := counts.next_increment recurrent s
  rcases eq_or_ne (count s) target with here | away
  · exact ⟨n, en, same.trans here⟩
  · have small : count (next^[n + 1] s) < period := by
      rw [moves away]
      exact Nat.mod_lt _ (by omega)
    obtain ⟨m, hm⟩ := counts.reaches_target recurrent lt _ _ rfl small
    exact ⟨m + (n + 1), by rwa [Function.iterate_add_apply]⟩

end Counts

end RiscvSoc.Clocked.Recurrence
