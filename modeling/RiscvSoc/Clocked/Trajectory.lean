/- GID: RiscvSoc/Clocked/Trajectory
   generality: G
   utility: library
   digest: Trajectories of a clocked machine, invariants along them, and emitted logs. -/

import Mathlib.Data.List.Infix
import Mathlib.Order.Basic

set_option autoImplicit false
set_option relaxedAutoImplicit false

namespace RiscvSoc.Clocked.Trajectory

variable {σ ι α : Type*}

/-- The state before edge `n` of a machine that takes `step` at every clock edge. -/
def trajectory (step : σ → ι → σ) (s : σ) (input : ℕ → ι) : ℕ → σ
  | 0 => s
  | n + 1 => step (trajectory step s input n) (input n)

theorem trajectory_succ (step : σ → ι → σ) (s : σ) (input : ℕ → ι) (n : ℕ) :
    trajectory step s input (n + 1) = step (trajectory step s input n) (input n) := rfl

/-- A trajectory goes on from any of its states as a trajectory from there. -/
theorem trajectory_add (step : σ → ι → σ) (s : σ) (input : ℕ → ι) (m n : ℕ) :
    trajectory step s input (m + n) =
      trajectory step (trajectory step s input m) (fun k => input (m + k)) n := by
  induction n with
  | zero => rfl
  | succ n ih => rw [← Nat.add_assoc, trajectory_succ, ih, trajectory_succ]

/-- A finite input that is played and then held at `rest`. -/
theorem trajectory_played (step : σ → ι → σ) (s : σ) (played : List ι) (rest : ι) {n : ℕ}
    (le : n ≤ played.length) :
    trajectory step s (fun k => played.getD k rest) n = (played.take n).foldl step s := by
  induction n with
  | zero => rfl
  | succ n ih =>
    have inside : n < played.length := le
    rw [trajectory_succ, ih inside.le, List.take_add_one, List.getD_eq_getElem?_getD,
      List.getElem?_eq_getElem inside, List.foldl_append]
    rfl

/-- An invariant that survives every edge allowed by `ok` holds along a trajectory
all of whose edges are allowed. -/
theorem trajectory_invariant {step : σ → ι → σ} {s : σ} {input : ℕ → ι}
    (inv : σ → Prop) (ok : σ → ι → Prop) (initial : inv s)
    (preserved : ∀ t i, inv t → ok t i → inv (step t i)) (n : ℕ)
    (allowed : ∀ k < n, ok (trajectory step s input k) (input k)) :
    inv (trajectory step s input n) := by
  induction n with
  | zero => exact initial
  | succ n ih =>
    exact preserved _ _ (ih fun k hk => allowed k (by omega)) (allowed n (by omega))

/-- What the machine has emitted before edge `n`, oldest first. -/
def emitted (step : σ → ι → σ) (out : σ → ι → List α) (s : σ) (input : ℕ → ι) : ℕ → List α
  | 0 => []
  | n + 1 => emitted step out s input n ++ out (trajectory step s input n) (input n)

theorem emitted_succ (step : σ → ι → σ) (out : σ → ι → List α) (s : σ) (input : ℕ → ι) (n : ℕ) :
    emitted step out s input (n + 1) =
      emitted step out s input n ++ out (trajectory step s input n) (input n) := rfl

/-- Nothing is emitted over clocks none of which emits. -/
theorem emitted_quiet {step : σ → ι → σ} {out : σ → ι → List α} {s : σ} {input : ℕ → ι} {m k : ℕ}
    (quiet : ∀ j < k, out (trajectory step s input (m + j)) (input (m + j)) = []) :
    emitted step out s input (m + k) = emitted step out s input m := by
  induction k with
  | zero => rfl
  | succ k ih =>
    rw [← Nat.add_assoc, emitted_succ, quiet k (by omega), List.append_nil]
    exact ih fun j hj => quiet j (by omega)

/-- One step of the machine or none, as a flag tells. -/
theorem emitted_toNat (step : σ → ι → σ) (out : σ → ι → List α) (s : σ) (input : ℕ → ι) (n : ℕ)
    (go : Bool) :
    emitted step out s input (n + go.toNat) =
      emitted step out s input n ++
        if go then out (trajectory step s input n) (input n) else [] := by
  cases go with
  | false => simp
  | true => rfl

theorem emitted_mono {step : σ → ι → σ} {out : σ → ι → List α} {s : σ} {input : ℕ → ι}
    {m n : ℕ} (le : m ≤ n) : emitted step out s input m <+: emitted step out s input n := by
  induction n, le using Nat.le_induction with
  | base => exact List.prefix_refl _
  | succ n _ ih => exact ih.trans (List.prefix_append _ _)

end RiscvSoc.Clocked.Trajectory
