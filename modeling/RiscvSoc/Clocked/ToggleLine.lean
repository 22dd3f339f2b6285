/- GID: RiscvSoc/Clocked/ToggleLine
   generality: G
   utility: library
   digest: Values announced by flipping a bit, on their way through a line of sampling registers. -/

import Mathlib.Data.List.Induction

set_option autoImplicit false
set_option relaxedAutoImplicit false

namespace RiscvSoc.Clocked.ToggleLine

variable {α : Type*}

/-- The registers of the line, newest sample first. A value is on its way where the bit beside it
differs from the bit of the next older sample. -/
def onTheWay : List (Bool × α) → List α
  | a :: b :: line => onTheWay (b :: line) ++ if a.1 = b.1 then [] else [a.2]
  | _ => []

variable {a b : Bool × α} {line : List (Bool × α)}

theorem onTheWay_settled (settled : a.1 = b.1) :
    onTheWay (a :: b :: line) = onTheWay (b :: line) := by
  rw [onTheWay, if_pos settled, List.append_nil]

/-- A flip behind a settled bit sends one more value. -/
theorem onTheWay_flip (settled : a.1 = b.1) (v : α) :
    onTheWay ((!a.1, v) :: b :: line) = onTheWay (a :: b :: line) ++ [v] := by
  have flipped : ¬ (!a.1) = b.1 := by simp [settled]
  rw [onTheWay_settled settled, onTheWay, if_neg flipped]

/-- Behind a settled bit the value may change. -/
theorem onTheWay_hold (settled : a.1 = b.1) (v : α) :
    onTheWay ((a.1, v) :: b :: line) = onTheWay (a :: b :: line) := by
  rw [onTheWay_settled settled]
  exact onTheWay_settled settled

/-- The oldest two registers decide what leaves the line next. -/
theorem onTheWay_concat (line : List (Bool × α)) (y z : Bool × α) :
    onTheWay (line ++ [y, z]) = (if y.1 = z.1 then [] else [y.2]) ++ onTheWay (line ++ [y]) := by
  induction line with
  | nil => simp [onTheWay]
  | cons x line ih =>
    cases line with
    | nil => simp [onTheWay]
    | cons x' line =>
      simp only [List.cons_append, onTheWay] at ih ⊢
      rw [ih, List.append_assoc]

/-- Beside the oldest bit nothing is left to be taken. -/
theorem onTheWay_oldest (line : List (Bool × α)) (bit : Bool) (u v : α) :
    onTheWay (line ++ [(bit, u)]) = onTheWay (line ++ [(bit, v)]) := by
  cases line using List.reverseRecOn with
  | nil => rfl
  | append_singleton line y =>
    rw [List.append_assoc, List.append_assoc, List.singleton_append, List.singleton_append,
      onTheWay_concat, onTheWay_concat]

end RiscvSoc.Clocked.ToggleLine
