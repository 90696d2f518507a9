/-
This file gives the sets of parties in which each one waits for another, and why no run unties them.
-/

import Chubby.Library.Runs
import Mathlib.Data.Set.Insert

namespace Chubby.Library

variable {State Label Party : Type}

section Knots

variable {waits : Party → Party → Prop} {parties : Set Party} {party other : Party}

/-- Each party of the set waits for a party of the set. -/
def Knot (waits : Party → Party → Prop) (parties : Set Party) : Prop :=
  ∀ party ∈ parties, ∃ other ∈ parties, waits party other

/-- A party that waits for a party of a knot is part of a larger one. -/
theorem Knot.insert (knot : Knot waits parties) (member : other ∈ parties) (waiting : waits party other) :
    Knot waits (insert party parties) := by
  intro first joined
  obtain rfl | old := Set.mem_insert_iff.mp joined
  · exact ⟨other, Set.mem_insert_of_mem first member, waiting⟩
  · obtain ⟨next, inside, waits⟩ := knot first old
    exact ⟨next, Set.mem_insert_of_mem party inside, waits⟩

/-- Three parties that wait for each other in a circle are a knot. -/
theorem knot_of_circle {first second third : Party} (one : waits first second) (two : waits second third)
    (three : waits third first) : Knot waits {first, second, third} := by
  rintro party (rfl | rfl | rfl)
  · exact ⟨second, by simp, one⟩
  · exact ⟨third, by simp, two⟩
  · exact ⟨first, by simp, three⟩

end Knots

variable {step : State → Label → Option State} {guard : State → Label → Prop}
  {waits : State → Party → Party → Prop}

/-- A party goes on waiting for another one while that one and the next one wait. -/
def Patient (waits : State → Party → Party → Prop) (state next : State) : Prop :=
  ∀ first second third fourth, waits state first second → waits state second third →
    waits state third fourth → waits next first second

theorem Patient.knot {state next : State} {parties : Set Party} (patient : Patient waits state next)
    (knot : Knot (waits state) parties) : Knot (waits next) parties := by
  intro first member
  obtain ⟨second, inside, one⟩ := knot first member
  obtain ⟨third, within, two⟩ := knot second inside
  obtain ⟨fourth, _, three⟩ := knot third within
  exact ⟨second, inside, patient first second third fourth one two three⟩

/-- Patient steps untie no knot. -/
theorem run_knot (patient : ∀ state label next, guard state label → step state label = some next →
      Patient waits state next)
    {state final : State} {labels : List Label} {parties : Set Party} (knot : Knot (waits state) parties)
    (guarded : Guarded step guard state labels) (ran : run step state labels = some final) :
    Knot (waits final) parties :=
  run_invariant (fun state label next knot allowed taken =>
    (patient state label next allowed taken).knot knot) knot guarded ran

end Chubby.Library
