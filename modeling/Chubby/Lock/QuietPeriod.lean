/-
This file proves when every failure detection is followed by its full quiet period.
-/

import Chubby.Library.Alarms
import Chubby.Lock.Server
import Chubby.Paxos.Detection

namespace Chubby.Lock

open Chubby.Library Chubby.Paxos

variable {n : Nat}

/-- A lock server on top of this Paxos server answers AcquireLock and ReleaseLock with ABORTED. -/
def AnswersAborted (server : PaxosImpl) : Prop :=
  ∀ (σ : Type) [PaxosService σ] (chubby : ChubbyImpl σ),
    PaxosService.leaderElectionHappened chubby.paxosService = server.leaderElectionHappened →
    ∀ client path mode,
      chubby.acquireLock client path mode = some (chubby, .error (.abortedStatus "")) ∧
      chubby.releaseLock client path = some (chubby, .error (.abortedStatus ""))

theorem answersAborted {server : PaxosImpl} (happened : server.leaderElectionHappened = true) :
    AnswersAborted server := by
  intro σ _ chubby same client path mode
  unfold ChubbyImpl.acquireLock ChubbyImpl.releaseLock
  rw [same, happened]
  exact ⟨rfl, rfl⟩

/-- A server with the numbers of its detections and of the timers that have fired; each detection
starts one timer. -/
structure Quieted where
  sections : Sections
  started : Nat
  ended : Nat

inductive TimedLabel where
  | handler (label : Section)
  | timer

namespace Quieted

def initial (groupSize : Nat) : Quieted := ⟨.initial groupSize, 0, 0⟩

/-- The detector of the server fires in this section. -/
def fires (me : Fin n) (t : Quieted) : Section → Bool
  | .other .detectLeaderFailure => (t.sections.server.detectLeaderFailure me).2.1
  | _ => false

def handle (me : Fin n) (t : Quieted) (label : Section) : Option Quieted :=
  (t.sections.step me label).map fun sections =>
    ⟨sections, if t.fires me label then t.started + 1 else t.started, t.ended⟩

/-- The quiet period ends only with a timer, and a timer fires only when it was started. -/
def step (me : Fin n) (t : Quieted) : TimedLabel → Option Quieted
  | .handler (.other .quietPeriodEnds) => none
  | .handler label => t.handle me label
  | .timer =>
      if t.ended < t.started then
        some ⟨{ t.sections with server := t.sections.server.quietPeriodEnds }, t.started, t.ended + 1⟩
      else none

/-- The shared flag with the detections whose timers have not fired. -/
def alarms (t : Quieted) : Alarms := ⟨t.sections.server.leaderElectionHappened, t.started, t.ended⟩

/-- From each detection to the end of its own timer the lock calls are answered with ABORTED. -/
def KeepsQuiet (t : Quieted) : Prop :=
  ∀ j, t.ended ≤ j → j < t.started →
    t.sections.server.leaderElectionHappened = true ∧ AnswersAborted t.sections.server

/-- A timer fires only when no later detection waits for its own. -/
def FiresAlone (t : Quieted) : TimedLabel → Prop
  | .timer => t.started = t.ended + 1
  | .handler _ => True

instance (t : Quieted) : DecidablePred t.FiresAlone
  | .timer => inferInstanceAs (Decidable (_ = _))
  | .handler _ => .isTrue trivial

theorem keepsQuiet_iff {t : Quieted} : t.KeepsQuiet ↔ t.alarms.Covers := by
  constructor
  · rintro quiet j ⟨above, below⟩
    exact (quiet j above below).1
  · intro covers j above below
    have happened : t.sections.server.leaderElectionHappened = true := covers j ⟨above, below⟩
    exact ⟨happened, answersAborted happened⟩

/-- A section of a handler starts an alarm when the detector fires, and leaves the alarms otherwise. -/
theorem handle_alarms {me : Fin n} {t next : Quieted} {label : Section}
    (untimed : label ≠ .other .quietPeriodEnds) (taken : t.handle me label = some next) :
    next.alarms = t.alarms.start ∨ next.alarms = t.alarms := by
  obtain ⟨sections, stepped, same⟩ := Option.map_eq_some_iff.mp taken
  by_cases detects : label = .other .detectLeaderFailure
  · subst detects
    cases stepped
    obtain ⟨_, ⟨fired, _, happened⟩ | ⟨calm, _, kept⟩⟩ := t.sections.server.detectLeaderFailure_cases me
    · left
      rw [← same]
      unfold alarms fires Alarms.start
      rw [if_pos fired]
      exact congrArg (Alarms.mk · (t.started + 1) t.ended) happened
    · right
      rw [← same]
      unfold alarms fires
      rw [if_neg (by rw [calm]; exact Bool.false_ne_true)]
      exact congrArg (Alarms.mk · t.started t.ended) kept
  · right
    have anew := Sections.trustsAnew stepped detects untimed
    have calm : t.fires me label = false := by
      unfold fires
      split
      · exact absurd rfl detects
      · rfl
    rw [← same]
    unfold alarms
    rw [calm, if_neg Bool.false_ne_true]
    exact congrArg (Alarms.mk · t.started t.ended) anew.leaderElectionHappened

/-- One step keeps the quiet periods exactly when it is no timer that fires beside another one. -/
theorem keepsQuiet_step {me : Fin n} {t next : Quieted} {label : TimedLabel} (quiet : t.KeepsQuiet)
    (taken : t.step me label = some next) : next.KeepsQuiet ↔ t.FiresAlone label := by
  rw [keepsQuiet_iff] at quiet ⊢
  cases label with
  | timer =>
      unfold step at taken
      dsimp only at taken
      split at taken
      next pending =>
        cases taken
        exact @Alarms.finish_covers_iff t.alarms pending
      · cases taken
  | handler label =>
      refine iff_of_true ?_ trivial
      have handled : label ≠ .other .quietPeriodEnds ∧ t.handle me label = some next := by
        cases label with
        | other call =>
            cases call with
            | quietPeriodEnds => cases taken
            | _ => exact ⟨nofun, taken⟩
        | _ => exact ⟨nofun, taken⟩
      obtain same | same := handle_alarms handled.1 handled.2 <;> rw [same]
      · exact t.alarms.start_covers
      · exact quiet

end Quieted

/-- Along every run every detection has its full quiet period exactly when no timer fires while a later
detection waits for its own. -/
theorem keepsQuiet_iff_alone {me : Fin n} {labels : List TimedLabel} {final : Quieted}
    (ran : run (Quieted.step me) (Quieted.initial n) labels = some final) :
    EveryStep (Quieted.step me) (fun _ _ next => next.KeepsQuiet) (Quieted.initial n) labels ↔
      Guarded (Quieted.step me) Quieted.FiresAlone (Quieted.initial n) labels := by
  refine everyStep_iff_guarded_of_invariant Quieted.KeepsQuiet ?_ ?_ ?_ ran
  · intro t label next quiet taken
    exact Quieted.keepsQuiet_step quiet taken
  · intro t label next quiet alone taken
    exact (Quieted.keepsQuiet_step quiet taken).mpr alone
  · rintro j above below
    exact absurd below (Nat.not_lt_zero j)

def missedFour : List TimedLabel := List.replicate 4 (.handler (.other .detectLeaderFailure))

theorem keepsQuiet_iff_oneAfterTheOther : ∃ final : Quieted, final.started = 2 ∧
    run (Quieted.step (1 : Fin 2)) (Quieted.initial 2) (missedFour ++ .timer :: missedFour) = some final ∧
      EveryStep (Quieted.step (1 : Fin 2)) (fun _ _ next => next.KeepsQuiet) (Quieted.initial 2)
        (missedFour ++ .timer :: missedFour) := by
  obtain ⟨final, ran, started⟩ : ∃ final, run (Quieted.step (1 : Fin 2)) (Quieted.initial 2)
      (missedFour ++ .timer :: missedFour) = some final ∧ final.started = 2 := ⟨_, rfl, rfl⟩
  exact ⟨final, started, ran, (keepsQuiet_iff_alone ran).mpr (by decide)⟩

/-- The timer of the first detection ends the quiet period of the second one. -/
theorem quietPeriod_cut : ¬ ∀ (n : Nat) (me : Fin n) (labels : List TimedLabel) (final : Quieted),
    run (Quieted.step me) (Quieted.initial n) labels = some final → final.KeepsQuiet := by
  intro quiet
  obtain ⟨final, ran, checked⟩ := (Option.any_eq_true _ _).mp (by decide :
    (run (Quieted.step (1 : Fin 2)) (Quieted.initial 2) (missedFour ++ missedFour ++ [.timer])).any
      (fun final => decide (final.ended ≤ 1 ∧ 1 < final.started ∧
        final.sections.server.leaderElectionHappened = false)) = true)
  obtain ⟨above, below, cleared⟩ := of_decide_eq_true checked
  have happened := (quiet 2 1 _ final ran 1 above below).1
  rw [cleared] at happened
  cases happened

end Chubby.Lock
