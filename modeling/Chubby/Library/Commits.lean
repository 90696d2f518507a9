/-
This file runs a machine of small steps beside an atomic machine that performs its commits.
-/

import Chubby.Library.Runs

namespace Chubby.Library

variable {Fine Atomic Label Op : Type}

/-- A state of the fine machine with the state that its commits have led the atomic one to. -/
structure Committed (Fine Atomic : Type) where
  fine : Fine
  atomic : Atomic

section Machine

variable (step : Fine → Label → Option Fine) (commits : Fine → Label → Option Op)
  (perform : Atomic → Op → Option Atomic)

/-- A commit that the atomic machine cannot perform leaves it where it is. -/
def commitStep (s : Committed Fine Atomic) (label : Label) : Option (Committed Fine Atomic) :=
  (step s.fine label).map fun fine => ⟨fine, match commits s.fine label with
    | none => s.atomic
    | some op => (perform s.atomic op).getD s.atomic⟩

/-- The operations of a run in the order of their commits. -/
def committedOps : Fine → List Label → List Op
  | _, [] => []
  | s, label :: rest => (commits s label).toList ++ ((step s label).map (committedOps · rest)).getD []

/-- The atomic machine performs what the step commits, and rests at every other step. -/
def Performs (s : Committed Fine Atomic) (label : Label) (next : Committed Fine Atomic) : Prop :=
  match commits s.fine label with
  | none => next.atomic = s.atomic
  | some op => perform s.atomic op = some next.atomic

end Machine

variable {step : Fine → Label → Option Fine} {commits : Fine → Label → Option Op}
  {perform : Atomic → Op → Option Atomic}

theorem commitStep_rests {s next : Committed Fine Atomic} {label : Label}
    (silent : commits s.fine label = none) (taken : commitStep step commits perform s label = some next) :
    step s.fine label = some next.fine ∧ next.atomic = s.atomic := by
  obtain ⟨fine, moved, rfl⟩ := Option.map_eq_some_iff.mp taken
  rw [silent]
  exact ⟨moved, rfl⟩

theorem commitStep_commits {s next : Committed Fine Atomic} {label : Label} {op : Op}
    (named : commits s.fine label = some op)
    (taken : commitStep step commits perform s label = some next) :
    step s.fine label = some next.fine ∧ next.atomic = (perform s.atomic op).getD s.atomic := by
  obtain ⟨fine, moved, rfl⟩ := Option.map_eq_some_iff.mp taken
  rw [named]
  exact ⟨moved, rfl⟩

/-- Every run of the fine machine has a run of the atomic one beside it. -/
theorem run_commitStep (s : Committed Fine Atomic) {labels : List Label} {fine : Fine}
    (ran : run step s.fine labels = some fine) :
    ∃ atomic, run (commitStep step commits perform) s labels = some ⟨fine, atomic⟩ := by
  induction labels generalizing s with
  | nil =>
      cases ran
      exact ⟨s.atomic, rfl⟩
  | cons label rest ih =>
      obtain ⟨next, taken, later⟩ := run_cons_eq_some.mp ran
      have moved : ∃ atomic, commitStep step commits perform s label = some ⟨next, atomic⟩ := by
        unfold commitStep
        rw [taken]
        exact ⟨_, rfl⟩
      obtain ⟨atomic, taken_⟩ := moved
      obtain ⟨final, ran⟩ := ih ⟨next, atomic⟩ later
      exact ⟨final, run_cons_eq_some.mpr ⟨_, taken_, ran⟩⟩

/-- When every commit is performed, the atomic machine has run the committed operations. -/
theorem run_committedOps {s final : Committed Fine Atomic} {labels : List Label}
    (every : EveryStep (commitStep step commits perform) (Performs commits perform) s labels)
    (ran : run (commitStep step commits perform) s labels = some final) :
    run perform s.atomic (committedOps step commits s.fine labels) = some final.atomic := by
  induction labels generalizing s with
  | nil =>
      cases ran
      rfl
  | cons label rest ih =>
      obtain ⟨next, taken, later⟩ := run_cons_eq_some.mp ran
      obtain ⟨performed, others⟩ := every next taken
      have after := ih others later
      unfold Performs at performed
      unfold committedOps
      cases named : commits s.fine label with
      | none =>
          obtain ⟨moved, same⟩ := commitStep_rests named taken
          rw [moved, ← same]
          exact after
      | some op =>
          rw [named] at performed
          rw [(commitStep_commits named taken).1]
          exact run_cons_eq_some.mpr ⟨next.atomic, performed, after⟩

end Chubby.Library
