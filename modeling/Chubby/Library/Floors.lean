/-
This file gives the maps that have no key below a floor.
-/

import Mathlib.Order.MinMax
import Mathlib.Logic.Function.Basic

namespace Chubby.Library

variable {Key Value : Type}

/-- The second map has the keys of the first one and those that are added. -/
def AddsKeys (added : Key → Prop) (before after : Key → Option Value) : Prop :=
  ∀ key, (after key).isSome ↔ (before key).isSome ∨ added key

theorem AddsKeys.of_same {before after : Key → Option Value} (same : after = before) {added : Key → Prop}
    (nothing : ∀ key, ¬ added key) : AddsKeys added before after := by
  intro key
  rw [same, or_iff_left (nothing key)]

theorem addsKeys_update [DecidableEq Key] (map : Key → Option Value) (key : Key) (value : Value) :
    AddsKeys (fun other => other = key) map (Function.update map key (some value)) := by
  intro other
  by_cases same : other = key
  · subst same
    rw [Function.update_self]
    exact iff_of_true rfl (.inr rfl)
  · rw [Function.update_of_ne same, or_iff_left same]

variable [LinearOrder Key]

/-- The map has no key below the floor. -/
def ClearBelow (floor : Key) (map : Key → Option Value) : Prop := ∀ key, key < floor → map key = none

def eraseBelow (floor : Key) (map : Key → Option Value) : Key → Option Value :=
  fun key => if key < floor then none else map key

theorem clearBelow_eraseBelow (floor : Key) (map : Key → Option Value) :
    ClearBelow floor (eraseBelow floor map) := fun _ below => if_pos below

/-- A floor that rises over a clear map erases exactly the keys below its new part. -/
theorem ClearBelow.eraseBelow_max {floor : Key} {map : Key → Option Value} (clear : ClearBelow floor map)
    (risen key : Key) : eraseBelow (max floor risen) map key = if key < risen then none else map key := by
  unfold eraseBelow
  by_cases below : key < risen
  · rw [if_pos below, if_pos (lt_max_of_lt_right below)]
  · rw [if_neg below]
    split
    next erased => exact (clear key ((lt_max_iff.mp erased).resolve_right below)).symm
    · rfl

/-- A clear map stays clear exactly when every added key is at or above the floor. -/
theorem ClearBelow.adds_iff {floor : Key} {before after : Key → Option Value}
    (clear : ClearBelow floor before) {added : Key → Prop} (adds : AddsKeys added before after) :
    ClearBelow floor after ↔ ∀ key, added key → floor ≤ key := by
  constructor
  · intro still key new
    by_contra below
    have stored := (adds key).mpr (.inr new)
    rw [still key (not_le.mp below)] at stored
    cases stored
  · intro above key below
    rw [← Option.not_isSome_iff_eq_none, adds key, not_or]
    refine ⟨?_, fun new => absurd (above key new) (not_le.mpr below)⟩
    rw [clear key below]
    exact Bool.false_ne_true

end Chubby.Library
