/-
This file bounds the runs of the labels that lower a measure and says where they have to end.
-/

import Chubby.Library.Runs

namespace Chubby.Library

variable {State Label : Type} {step : State → Label → Option State} {own : Label → Prop}

/-- No label of the kind can be taken. -/
def Resting (step : State → Label → Option State) (own : Label → Prop) (state : State) : Prop :=
  ∀ label, own label → step state label = none

/-- A state with an invariant that every step keeps, and a measure that each step of the kind lowers. -/
structure Descends (step : State → Label → Option State) (own : Label → Prop) (invariant : State → Prop)
    (measure : State → Nat) : Prop where
  kept : ∀ state label next, invariant state → step state label = some next → invariant next
  lower : ∀ state label next, invariant state → own label → step state label = some next →
    measure next < measure state

variable {invariant : State → Prop} {measure : State → Nat}

/-- The measure bounds the number of steps of the kind that can follow one another. -/
theorem Descends.length_le (descends : Descends step own invariant measure) {state final : State}
    {labels : List Label} (start : invariant state) (owned : ∀ label ∈ labels, own label)
    (ran : run step state labels = some final) : labels.length + measure final ≤ measure state := by
  induction labels generalizing state with
  | nil =>
      cases ran
      exact Nat.le_of_eq (Nat.zero_add _)
  | cons label rest ih =>
      obtain ⟨here, others⟩ := List.forall_mem_cons.mp owned
      obtain ⟨next, taken, later⟩ := run_cons_eq_some.mp ran
      have after := ih (descends.kept state label next start taken) others later
      have fewer := descends.lower state label next start here taken
      rw [List.length_cons]
      omega

/-- Steps of the kind lead from every state to one at which none of them can be taken. -/
theorem Descends.exists_resting (descends : Descends step own invariant measure) {state : State}
    (start : invariant state) : ∃ (labels : List Label) (final : State), (∀ label ∈ labels, own label) ∧
      run step state labels = some final ∧ invariant final ∧ Resting step own final := by
  by_cases rests : Resting step own state
  · exact ⟨[], state, nofun, rfl, start, rests⟩
  · unfold Resting at rests
    push Not at rests
    obtain ⟨label, owned, enabled⟩ := rests
    obtain ⟨next, taken⟩ := Option.ne_none_iff_exists'.mp enabled
    obtain ⟨labels, final, others, ran, kept, rest⟩ :=
      descends.exists_resting (descends.kept state label next start taken)
    exact ⟨label :: labels, final, List.forall_mem_cons.mpr ⟨owned, others⟩,
      run_cons_eq_some.mpr ⟨next, taken, ran⟩, kept, rest⟩
termination_by measure state
decreasing_by exact descends.lower state label next start owned taken

end Chubby.Library
