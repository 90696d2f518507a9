/-
This file gives alarms that share one flag and end in the order in which they were started.
-/

import Mathlib.Tactic.Common

namespace Chubby.Library

/-- The alarms are numbered; every start raises the flag, and every end clears it. -/
structure Alarms where
  raised : Bool
  started : Nat
  ended : Nat
  deriving DecidableEq, Repr

namespace Alarms

/-- The alarm has started and has not ended. -/
def Pending (alarms : Alarms) (j : Nat) : Prop := alarms.ended ≤ j ∧ j < alarms.started

/-- The flag is up as long as an alarm is pending. -/
def Covers (alarms : Alarms) : Prop := ∀ j, alarms.Pending j → alarms.raised = true

def start (alarms : Alarms) : Alarms := ⟨true, alarms.started + 1, alarms.ended⟩

def finish (alarms : Alarms) : Alarms := ⟨false, alarms.started, alarms.ended + 1⟩

theorem covers_of_raised {alarms : Alarms} (raised : alarms.raised = true) : alarms.Covers :=
  fun _ _ => raised

theorem start_covers (alarms : Alarms) : alarms.start.Covers := covers_of_raised rfl

theorem covers_of_none {alarms : Alarms} (none_ : alarms.started ≤ alarms.ended) : alarms.Covers := by
  rintro j ⟨above, below⟩
  omega

/-- The end of an alarm leaves the others covered exactly when there are no others. -/
theorem finish_covers_iff {alarms : Alarms} (pending : alarms.ended < alarms.started) :
    alarms.finish.Covers ↔ alarms.started = alarms.ended + 1 := by
  constructor
  · intro covers
    by_contra others
    have next : alarms.finish.Pending (alarms.ended + 1) := by
      refine ⟨Nat.le_refl _, ?_⟩
      show alarms.ended + 1 < alarms.started
      omega
    exact Bool.false_ne_true (covers (alarms.ended + 1) next)
  · intro last
    exact covers_of_none (Nat.le_of_eq last)

end Alarms

end Chubby.Library
