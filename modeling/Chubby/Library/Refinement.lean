/-
This file relates the runs of two machines of which one shows some of its steps to the other.
-/

import Chubby.Library.Runs

namespace Chubby.Library

variable {Concrete Abstract Label Shown : Type} {step : Concrete → Label → Option Concrete}
  {abstractStep : Abstract → Shown → Option Abstract} {shown : Label → Option Shown}
  {abstract_ : Concrete → Abstract} {invariant : Concrete → Prop}

/-- The abstract machine takes the shown step, or rests at a step that shows nothing. -/
def Shows (abstractStep : Abstract → Shown → Option Abstract) (shown : Label → Option Shown)
    (abstract_ : Concrete → Abstract) (state : Concrete) (label : Label) (next : Concrete) : Prop :=
  match shown label with
  | none => abstract_ next = abstract_ state
  | some op => abstractStep (abstract_ state) op = some (abstract_ next)

/-- Some run of steps that show nothing leads from the one state to the other. -/
def Silently (step : Concrete → Label → Option Concrete) (shown : Label → Option Shown)
    (state final : Concrete) : Prop :=
  ∃ labels : List Label, labels.filterMap shown = [] ∧ run step state labels = some final

theorem Silently.refl (state : Concrete) : Silently step shown state state := ⟨[], rfl, rfl⟩

theorem Silently.trans {state middle final : Concrete} (first : Silently step shown state middle)
    (second : Silently step shown middle final) : Silently step shown state final := by
  obtain ⟨one, hidden, ran⟩ := first
  obtain ⟨two, hidden', ran'⟩ := second
  refine ⟨one ++ two, ?_, ?_⟩
  · rw [List.filterMap_append, hidden, hidden']
    rfl
  · rw [run_append, ran]
    exact ran'

theorem Silently.of_step {state next : Concrete} (label : Label) (hidden : shown label = none)
    (taken : step state label = some next) : Silently step shown state next :=
  ⟨[label], List.filterMap_cons_none hidden, run_cons_eq_some.mpr ⟨next, taken, rfl⟩⟩

/-- A machine all of whose steps show what they do runs as the abstract machine runs. -/
theorem run_shown
    (kept : ∀ state label next, invariant state → step state label = some next →
      Shows abstractStep shown abstract_ state label next ∧ invariant next)
    {state final : Concrete} {labels : List Label} (start : invariant state)
    (ran : run step state labels = some final) :
    run abstractStep (abstract_ state) (labels.filterMap shown) = some (abstract_ final) ∧
      invariant final := by
  induction labels generalizing state with
  | nil =>
      cases ran
      exact ⟨rfl, start⟩
  | cons label rest ih =>
      obtain ⟨next, taken, later⟩ := run_cons_eq_some.mp ran
      obtain ⟨shows, holds⟩ := kept state label next start taken
      obtain ⟨performed, ends⟩ := ih holds later
      refine ⟨?_, ends⟩
      unfold Shows at shows
      cases visible : shown label with
      | none =>
          rw [visible] at shows
          rw [List.filterMap_cons_none visible, ← shows]
          exact performed
      | some op =>
          rw [visible] at shows
          rw [List.filterMap_cons_some visible]
          exact run_cons_eq_some.mpr ⟨_, shows, performed⟩

/-- When every abstract step has concrete ones that show just it, every abstract run has a concrete one. -/
theorem exists_run_shown (invariant : Concrete → Prop)
    (lifts : ∀ state op after, invariant state → abstractStep (abstract_ state) op = some after →
      ∃ (labels : List Label) (next : Concrete), labels.filterMap shown = [op] ∧
        run step state labels = some next ∧ abstract_ next = after ∧ invariant next)
    {state : Concrete} {after : Abstract} {ops : List Shown} (start : invariant state)
    (ran : run abstractStep (abstract_ state) ops = some after) :
    ∃ (labels : List Label) (final : Concrete), labels.filterMap shown = ops ∧
      run step state labels = some final ∧ abstract_ final = after ∧ invariant final := by
  induction ops generalizing state with
  | nil =>
      cases ran
      exact ⟨[], state, rfl, rfl, rfl, start⟩
  | cons op rest ih =>
      obtain ⟨middle, taken, later⟩ := run_cons_eq_some.mp ran
      obtain ⟨first, next, visible, ran, rfl, holds⟩ := lifts state op middle start taken
      obtain ⟨second, final, others, ran_, same, ends⟩ := ih holds later
      refine ⟨first ++ second, final, ?_, ?_, same, ends⟩
      · rw [List.filterMap_append, visible, others]
        rfl
      · rw [run_append, ran]
        exact ran_

/-- Both machines take every step, and what they do in it agrees. -/
def Lockstep (step : Concrete → Label → Option Concrete) (otherStep : Abstract → Label → Option Abstract)
    (agree : Concrete → Abstract → Label → Concrete → Abstract → Prop) :
    Concrete → Abstract → List Label → Prop
  | _, _, [] => True
  | state, other, label :: rest => ∃ next after, step state label = some next ∧
      otherStep other label = some after ∧ agree state other label next after ∧
        Lockstep step otherStep agree next after rest

/-- A machine that can follow every step, and agrees with it exactly under a guard that keeps both
related, stays in lockstep with the runs in which the guard always holds. -/
theorem lockstep_iff_guarded {otherStep : Abstract → Label → Option Abstract}
    {agree : Concrete → Abstract → Label → Concrete → Abstract → Prop} {guard : Concrete → Label → Prop}
    {related : Concrete → Abstract → Prop} {admissible : Label → Prop}
    (follows : ∀ state other label next, related state other → admissible label →
      step state label = some next → ∃ after, otherStep other label = some after ∧
        (agree state other label next after ↔ guard state label) ∧
        (guard state label → related next after))
    {state final : Concrete} {other : Abstract} {labels : List Label} (start : related state other)
    (admitted : ∀ label ∈ labels, admissible label) (ran : run step state labels = some final) :
    Lockstep step otherStep agree state other labels ↔ Guarded step guard state labels := by
  induction labels generalizing state other with
  | nil => exact Iff.rfl
  | cons label rest ih =>
      obtain ⟨next, taken, later⟩ := run_cons_eq_some.mp ran
      obtain ⟨here, others⟩ := List.forall_mem_cons.mp admitted
      obtain ⟨after, followed, exact_, kept⟩ := follows state other label next start here taken
      constructor
      · rintro ⟨next', after', taken', followed', agrees, tail⟩
        cases taken.symm.trans taken'
        cases followed.symm.trans followed'
        have allowed := exact_.mp agrees
        refine ⟨allowed, fun again reached => ?_⟩
        cases taken.symm.trans reached
        exact (ih (kept allowed) others later).mp tail
      · rintro ⟨allowed, tail⟩
        exact ⟨next, after, taken, followed, exact_.mpr allowed,
          (ih (kept allowed) others later).mpr (tail next taken)⟩

end Chubby.Library
