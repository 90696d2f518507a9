/-
This file gives the runs of a labelled step function and the induction rules over them.
-/

import Mathlib.Data.Option.Basic
import Mathlib.Data.List.Basic

namespace Chubby.Library

variable {State Label : Type}

/-- A label that is not enabled ends the run without a state. -/
def run (step : State → Label → Option State) : State → List Label → Option State
  | state, [] => some state
  | state, label :: rest => (step state label).bind fun next => run step next rest

/-- The guard holds of every step before that step is taken. -/
def Guarded (step : State → Label → Option State) (guard : State → Label → Prop) :
    State → List Label → Prop
  | _, [] => True
  | state, label :: rest =>
      guard state label ∧ ∀ next, step state label = some next → Guarded step guard next rest

/-- A state is reachable when some run leads to it. -/
def Reachable (step : State → Label → Option State) (initial final : State) : Prop :=
  ∃ labels, run step initial labels = some final

@[simp] theorem run_nil (step : State → Label → Option State) (state : State) :
    run step state [] = some state := rfl

theorem run_cons_eq_some {step : State → Label → Option State} {state final : State}
    {label : Label} {rest : List Label} :
    run step state (label :: rest) = some final ↔
      ∃ next, step state label = some next ∧ run step next rest = some final := by
  simp [run, Option.bind_eq_some_iff]

theorem run_append {step : State → Label → Option State} (state : State)
    (first second : List Label) :
    run step state (first ++ second) =
      (run step state first).bind fun middle => run step middle second := by
  induction first generalizing state with
  | nil => rfl
  | cons label rest ih =>
      cases taken : step state label with
      | none => simp [run, taken]
      | some next => simpa [run, taken] using ih next

instance guardedDecidable (step : State → Label → Option State) (guard : State → Label → Prop)
    [∀ state label, Decidable (guard state label)] :
    ∀ (state : State) (labels : List Label), Decidable (Guarded step guard state labels)
  | _, [] => isTrue trivial
  | state, label :: rest =>
      match holds : decide (guard state label), taken : step state label with
      | false, _ => isFalse fun guarded => of_decide_eq_false holds guarded.1
      | true, none => isTrue ⟨of_decide_eq_true holds, fun _ reached => by
          rw [taken] at reached; cases reached⟩
      | true, some next =>
          match guardedDecidable step guard next rest with
          | isTrue later => isTrue ⟨of_decide_eq_true holds, fun other reached => by
              rw [taken] at reached; cases reached; exact later⟩
          | isFalse earlier => isFalse fun guarded => earlier (guarded.2 next taken)

theorem guarded_of_forall {step : State → Label → Option State} {guard : Label → Prop} {labels : List Label}
    (every : ∀ label ∈ labels, guard label) (state : State) :
    Guarded step (fun _ => guard) state labels := by
  induction labels generalizing state with
  | nil => trivial
  | cons label rest ih =>
      obtain ⟨here, others⟩ := List.forall_mem_cons.mp every
      exact ⟨here, fun next _ => ih others next⟩

/-- A guarded run keeps an invariant that every guarded step keeps. -/
theorem run_invariant {step : State → Label → Option State} {guard : State → Label → Prop}
    {invariant : State → Prop}
    (preserved : ∀ state label next, invariant state → guard state label →
      step state label = some next → invariant next)
    {state final : State} {labels : List Label} (start : invariant state)
    (guarded : Guarded step guard state labels) (ran : run step state labels = some final) :
    invariant final := by
  induction labels generalizing state with
  | nil =>
      cases ran
      exact start
  | cons label rest ih =>
      obtain ⟨next, taken, later⟩ := run_cons_eq_some.mp ran
      exact ih (preserved state label next start guarded.1 taken) (guarded.2 next taken) later

/-- An invariant that every step keeps holds along every run. -/
theorem run_invariant_of_step {step : State → Label → Option State} {invariant : State → Prop}
    (preserved : ∀ state label next, invariant state → step state label = some next → invariant next)
    {state final : State} {labels : List Label} (start : invariant state)
    (ran : run step state labels = some final) : invariant final := by
  induction labels generalizing state with
  | nil =>
      cases ran
      exact start
  | cons label rest ih =>
      obtain ⟨next, taken, later⟩ := run_cons_eq_some.mp ran
      exact ih (preserved state label next start taken) later

/-- A state is reachable from itself. -/
theorem Reachable.refl (step : State → Label → Option State) (state : State) :
    Reachable step state state := ⟨[], rfl⟩

/-- One more step keeps a state reachable. -/
theorem Reachable.step {step : State → Label → Option State} {initial state next : State}
    {label : Label} (reached : Reachable step initial state) (taken : step state label = some next) :
    Reachable step initial next := by
  obtain ⟨labels, ran⟩ := reached
  exact ⟨labels ++ [label], by simp [run_append, ran, run, taken]⟩

/-- Every step from a reachable state keeps the invariant, so it holds of every reachable state. -/
theorem reachable_invariant {step : State → Label → Option State} {initial final : State}
    {invariant : State → Prop} (start : invariant initial)
    (preserved : ∀ state label next, Reachable step initial state → invariant state →
      step state label = some next → invariant next)
    (reached : Reachable step initial final) : invariant final := by
  obtain ⟨labels, ran⟩ := reached
  have both : Reachable step initial final ∧ invariant final := by
    refine @run_invariant_of_step _ _ _ (fun state => Reachable step initial state ∧ invariant state)
      ?_ _ _ _ ⟨.refl step initial, start⟩ ran
    rintro state label next ⟨reached, holds⟩ taken
    exact ⟨reached.step taken, preserved state label next reached holds taken⟩
  exact both.2

/-- Some run whose steps all meet the guard leads to the state. -/
def GuardedReachable (step : State → Label → Option State) (guard : State → Label → Prop)
    (initial final : State) : Prop :=
  ∃ labels, Guarded step guard initial labels ∧ run step initial labels = some final

theorem GuardedReachable.reachable {step : State → Label → Option State} {guard : State → Label → Prop}
    {initial final : State} (reached : GuardedReachable step guard initial final) :
    Reachable step initial final := by
  obtain ⟨labels, _, ran⟩ := reached
  exact ⟨labels, ran⟩

theorem Guarded.concat {step : State → Label → Option State} {guard : State → Label → Prop}
    {state final : State} {labels : List Label} {label : Label}
    (guarded : Guarded step guard state labels) (ran : run step state labels = some final)
    (allowed : guard final label) : Guarded step guard state (labels ++ [label]) := by
  induction labels generalizing state with
  | nil =>
      cases ran
      exact ⟨allowed, fun _ _ => trivial⟩
  | cons first rest ih =>
      obtain ⟨next, taken, later⟩ := run_cons_eq_some.mp ran
      refine ⟨guarded.1, fun other again => ?_⟩
      rw [taken] at again
      cases again
      exact ih (guarded.2 next taken) later

theorem GuardedReachable.step {step : State → Label → Option State} {guard : State → Label → Prop}
    {initial state next : State} {label : Label}
    (reached : GuardedReachable step guard initial state) (allowed : guard state label)
    (taken : step state label = some next) : GuardedReachable step guard initial next := by
  obtain ⟨labels, guarded, ran⟩ := reached
  exact ⟨labels ++ [label], guarded.concat ran allowed, by simp [run_append, ran, run, taken]⟩

/-- The guarded runs from the initial state keep an invariant that every guarded step keeps. -/
theorem guarded_invariant {step : State → Label → Option State} {guard : State → Label → Prop}
    {initial final : State} {invariant : State → Prop} (start : invariant initial)
    (preserved : ∀ state label next, GuardedReachable step guard initial state → invariant state →
      guard state label → step state label = some next → invariant next)
    (reached : GuardedReachable step guard initial final) : invariant final := by
  obtain ⟨labels, guarded, ran⟩ := reached
  have both : GuardedReachable step guard initial final ∧ invariant final := by
    refine @run_invariant _ _ _ _
      (fun state => GuardedReachable step guard initial state ∧ invariant state)
      ?_ _ _ _ ⟨⟨[], trivial, rfl⟩, start⟩ guarded ran
    rintro state label next ⟨reached, holds⟩ allowed taken
    exact ⟨reached.step allowed taken, preserved state label next reached holds allowed taken⟩
  exact both.2

/-- Every step that the run takes has the property. -/
def EveryStep (step : State → Label → Option State) (property : State → Label → State → Prop) :
    State → List Label → Prop
  | _, [] => True
  | state, label :: rest => ∀ next, step state label = some next →
      property state label next ∧ EveryStep step property next rest

/-- When every step of a run has a property, so has its last one. -/
theorem EveryStep.last {step : State → Label → Option State} {property : State → Label → State → Prop}
    {state middle final : State} {labels : List Label} {label : Label}
    (every : EveryStep step property state (labels ++ [label])) (ran : run step state labels = some middle)
    (taken : step middle label = some final) : property middle label final := by
  induction labels generalizing state with
  | nil =>
      cases ran
      exact (every final taken).1
  | cons first rest ih =>
      obtain ⟨next, here, later⟩ := run_cons_eq_some.mp ran
      exact ih (every next here).2 later

/-- When every step of a run leads to a state with a fact, the run ends in such a state. -/
theorem EveryStep.final {step : State → Label → Option State} {fact : State → Prop} {state final : State}
    {labels : List Label} (start : fact state)
    (every : EveryStep step (fun _ _ next => fact next) state labels)
    (ran : run step state labels = some final) : fact final := by
  induction labels generalizing state with
  | nil =>
      cases ran
      exact start
  | cons label rest ih =>
      obtain ⟨next, taken, later⟩ := run_cons_eq_some.mp ran
      obtain ⟨holds, tail⟩ := every next taken
      exact ih holds tail later

/-- A fact that no step establishes holds along a whole run when it holds at the end. -/
theorem EveryStep.of_final {step : State → Label → Option State} {fact : State → Prop}
    (back : ∀ state label next, step state label = some next → fact next → fact state)
    {state final : State} {labels : List Label} (ran : run step state labels = some final)
    (holds : fact final) : EveryStep step (fun _ _ next => fact next) state labels := by
  have first {state : State} {labels : List Label} (ran : run step state labels = some final) : fact state := by
    induction labels generalizing state with
    | nil =>
        cases ran
        exact holds
    | cons label rest ih =>
        obtain ⟨next, taken, later⟩ := run_cons_eq_some.mp ran
        exact back state label next taken (ih later)
  induction labels generalizing state with
  | nil => trivial
  | cons label rest ih =>
      intro other again
      obtain ⟨next, taken, later⟩ := run_cons_eq_some.mp ran
      rw [taken] at again
      cases again
      exact ⟨first later, ih later⟩

theorem EveryStep.mono {step : State → Label → Option State} {strong weak : State → Label → State → Prop}
    (weaker : ∀ state label next, strong state label next → weak state label next) {state : State}
    {labels : List Label} (every : EveryStep step strong state labels) : EveryStep step weak state labels := by
  induction labels generalizing state with
  | nil => trivial
  | cons label rest ih =>
      intro next taken
      obtain ⟨holds, tail⟩ := every next taken
      exact ⟨weaker state label next holds, ih tail⟩

/-- Labels that always meet the guard may follow a guarded run. -/
theorem Guarded.append {step : State → Label → Option State} {guard : State → Label → Prop} {state : State}
    {labels more : List Label} (guarded : Guarded step guard state labels)
    (free : ∀ label ∈ more, ∀ state, guard state label) : Guarded step guard state (labels ++ more) := by
  have tail : ∀ state, Guarded step guard state more := by
    induction more with
    | nil => exact fun _ => trivial
    | cons label rest ih =>
        obtain ⟨here, others⟩ := List.forall_mem_cons.mp free
        exact fun state => ⟨here state, fun next _ => ih others next⟩
  induction labels generalizing state with
  | nil => exact tail state
  | cons label rest ih => exact ⟨guarded.1, fun next taken => ih (guarded.2 next taken)⟩

/-- Along a guarded run every step has a property that the guarded steps have. -/
theorem everyStep_of_guarded {step : State → Label → Option State} {guard : State → Label → Prop}
    {property : State → Label → State → Prop} {invariant : State → Prop}
    (exact_ : ∀ state label next, invariant state → guard state label →
      step state label = some next → property state label next ∧ invariant next)
    {state : State} {labels : List Label} (start : invariant state)
    (guarded : Guarded step guard state labels) : EveryStep step property state labels := by
  induction labels generalizing state with
  | nil => trivial
  | cons label rest ih =>
      intro next taken
      obtain ⟨holds, kept⟩ := exact_ state label next start guarded.1 taken
      exact ⟨holds, ih kept (guarded.2 next taken)⟩

/-- A guard that characterises the property of one step characterises it along every run of
admissible labels, with an invariant that the guarded steps keep. -/
theorem everyStep_iff_guarded {step : State → Label → Option State} {guard : State → Label → Prop}
    {property : State → Label → State → Prop} {invariant : State → Prop} {admissible : Label → Prop}
    (exact_ : ∀ state label next, invariant state → admissible label →
      step state label = some next → (property state label next ↔ guard state label))
    (preserved : ∀ state label next, invariant state → admissible label → guard state label →
      step state label = some next → invariant next)
    {state final : State} {labels : List Label} (start : invariant state)
    (admitted : ∀ label ∈ labels, admissible label) (ran : run step state labels = some final) :
    EveryStep step property state labels ↔ Guarded step guard state labels := by
  induction labels generalizing state with
  | nil => exact Iff.rfl
  | cons label rest ih =>
      obtain ⟨next, taken, later⟩ := run_cons_eq_some.mp ran
      obtain ⟨here, others⟩ := List.forall_mem_cons.mp admitted
      have one := exact_ state label next start here taken
      constructor
      · intro every
        obtain ⟨holds, tail⟩ := every next taken
        have allowed := one.mp holds
        refine ⟨allowed, fun other again => ?_⟩
        rw [taken] at again
        cases again
        exact (ih (preserved state label next start here allowed taken) others later).mp tail
      · rintro ⟨allowed, tail⟩ other again
        rw [taken] at again
        cases again
        exact ⟨one.mpr allowed,
          (ih (preserved state label next start here allowed taken) others later).mpr (tail next taken)⟩

/-- The same along every run, where every label is admissible. -/
theorem everyStep_iff_guarded_of_invariant {step : State → Label → Option State}
    {guard : State → Label → Prop} {property : State → Label → State → Prop} (invariant : State → Prop)
    (exact_ : ∀ state label next, invariant state → step state label = some next →
      (property state label next ↔ guard state label))
    (preserved : ∀ state label next, invariant state → guard state label →
      step state label = some next → invariant next)
    {state final : State} {labels : List Label} (start : invariant state)
    (ran : run step state labels = some final) :
    EveryStep step property state labels ↔ Guarded step guard state labels := by
  have admitted : ∀ label ∈ labels, True := fun _ _ => trivial
  exact everyStep_iff_guarded (fun state label next holds _ => exact_ state label next holds)
    (fun state label next holds _ => preserved state label next holds) start admitted ran

/-- A run that ends well has met a guard, when every failure of the guard leads to a fact that stays. -/
theorem guarded_of_final {step : State → Label → Option State} {guard : State → Label → Prop}
    {fact : State → Prop}
    (stays : ∀ state label next, fact state → step state label = some next → fact next)
    (fails : ∀ state label next, ¬ guard state label → step state label = some next → fact next)
    {state final : State} {labels : List Label} (ran : run step state labels = some final)
    (well : ¬ fact final) : Guarded step guard state labels := by
  induction labels generalizing state with
  | nil => trivial
  | cons label rest ih =>
      obtain ⟨next, taken, later⟩ := run_cons_eq_some.mp ran
      refine ⟨?_, fun other again => ?_⟩
      · by_contra failed
        exact well (run_invariant_of_step stays (fails state label next failed taken) later)
      · rw [taken] at again
        cases again
        exact ih later

/-- A loop that may fail keeps an invariant that every pass over an item keeps. -/
theorem foldlM_invariant {Item : Type} {body : State → Item → Option State} {items : List Item}
    {invariant : State → Prop}
    (preserved : ∀ state, ∀ item ∈ items, ∀ next, invariant state → body state item = some next →
      invariant next)
    {state final : State} (start : invariant state) (looped : items.foldlM body state = some final) :
    invariant final := by
  induction items generalizing state with
  | nil =>
      cases looped
      exact start
  | cons item rest ih =>
      rw [List.foldlM_cons] at looped
      obtain ⟨next, first, later⟩ := Option.bind_eq_some_iff.mp looped
      refine ih (fun state item member => preserved state item (List.mem_cons_of_mem _ member)) ?_ later
      exact preserved state item (List.mem_cons_self ..) next start first

end Chubby.Library
