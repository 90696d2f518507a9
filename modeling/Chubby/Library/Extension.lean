/-
This file extends a partial map by the entries of another one at the keys that it does not have.
-/

import Mathlib.Data.Option.Basic

namespace Chubby.Library

variable {Key Value : Type}

/-- At a key of both maps the own entry stays. -/
def extend (own offered : Key → Option Value) : Key → Option Value :=
  fun key => (own key).or (offered key)

/-- The entries at the keys that the other side does not have. -/
def without (offered known : Key → Option Value) : Key → Option Value :=
  fun key => if (known key).isSome then none else offered key

theorem extend_of_some {own : Key → Option Value} {key : Key} {value : Value}
    (found : own key = some value) (offered : Key → Option Value) :
    extend own offered key = some value := by
  unfold extend
  rw [found, Option.some_or]

theorem extend_eq_none {own offered : Key → Option Value} {key : Key} :
    extend own offered key = none ↔ own key = none ∧ offered key = none :=
  Option.or_eq_none_iff

/-- Entries at keys that a map already has need not be offered to it. -/
theorem extend_without {own known : Key → Option Value}
    (kept : ∀ key value, known key = some value → own key = some value) (offered : Key → Option Value) :
    extend own (without offered known) = extend own offered := by
  funext key
  unfold extend without
  cases found : known key with
  | none => rfl
  | some value => rw [kept key value found, Option.some_or, Option.some_or]

end Chubby.Library
