/-
This file proves when the release of one client leaves the hold of another client alone.
-/

import Chubby.Lock.Table

namespace Chubby.Lock

open Chubby.Library

/-- A release by another client takes nothing from a holder of the path: it fails without an effect
when that client is a stranger to the path, and otherwise it ends only that client's shared hold. -/
structure HoldKept (s : ChubbyImpl Database) (holder other path : String) : Prop where
  stranger : ¬ s.Holds path other → ∃ next response,
    s.releaseLock other path = some (next, .ok response) ∧ response.success = false ∧
      next.paxosService = s.paxosService ∧ next.clientLockMap = s.clientLockMap
  sharer : s.Holds path other → s.found path = some "SHARED" → ∃ next reply,
    s.releaseLock other path = some (next, reply) ∧ next.found path = some "SHARED" ∧
      next.Holds path holder ∧
      ∀ query client, next.Holds query client ↔
        ¬ (query = path ∧ client = other) ∧ s.Holds query client

/-- Every path that a client holds has a value in the database. -/
def Recorded (s : ChubbyImpl Database) : Prop :=
  ∀ path client, s.Holds path client → s.found path ≠ none

theorem Recorded.outcome {s next : ChubbyImpl Database} {operation : Operation} (recorded : Recorded s)
    (outcome : Outcome s operation next) : Recorded next := by
  intro path client holds
  cases outcome with
  | renewed => exact recorded path client holds
  | acquireAborted => exact recorded path client holds
  | releaseAborted _ => exact recorded path client holds
  | notLocked _ => exact recorded path client holds
  | refused => exact recorded path client holds
  | @joined _ shared_ shared =>
      obtain ⟨rfl, rfl⟩ | held := ChubbyImpl.insertLock_holds.mp holds
      · show s.found path ≠ none
        rw [shared]
        simp
      · exact recorded path client held
  | @granted holder taken mode stored free puts =>
      obtain ⟨map, found⟩ := ChubbyImpl.put_database puts
      show stored.found path ≠ none
      rw [found]
      split
      · simp
      next different =>
        have held := (ChubbyImpl.insertLock_holds.mp holds).resolve_left fun same => different same.1
        apply recorded path client
        show (path, client) ∈ s.nextSlot.clientLockMap
        rw [← map]
        exact held
  | @freed releaser freed stored locked puts =>
      obtain ⟨map, found⟩ := ChubbyImpl.put_database puts
      show stored.found path ≠ none
      rw [found]
      split
      · simp
      · apply recorded path client
        show (path, client) ∈ s.clientLockMap
        rw [← map]
        exact (ChubbyImpl.eraseLock_holds.mp holds).2
  | expired _ released =>
      obtain ⟨map, found⟩ := ChubbyImpl.expireClients_database released
      have held : s.Holds path client := by
        show (path, client) ∈ s.clientLockMap
        rw [← map]
        exact holds
      rw [found]
      split
      · simp
      · exact recorded path client held

theorem recorded_of_run {slotNumber : Int} {operations : List Operation} {s : Timed Database}
    (ran : run Timed.step (Timed.initial Database.empty slotNumber) operations = some s) :
    Plain s.chubby ∧ Recorded s.chubby := by
  refine @run_invariant_of_step _ _ _ (fun s => Plain s.chubby ∧ Recorded s.chubby) ?_ _ _ _ ?_ ran
  · intro s operation next holds taken
    have outcome := Timed.step_outcome taken
    exact ⟨holds.1.outcome outcome, holds.2.outcome outcome⟩
  · refine ⟨plain_initial slotNumber, fun path client holds => ?_⟩
    exact absurd holds Std.TreeSet.not_mem_emptyc

section ReleaseCall

variable {s : ChubbyImpl Database} {client path : String}

/-- A release of a path that is not locked changes nothing and fails. -/
theorem releaseLock_unlocked (unlocked : ¬ Locked (s.found path)) :
    ∃ response, s.releaseLock client path = some (s, .ok response) ∧ response.success = false := by
  have kept : releaseDecision (s.found path) ≠ .put := fun chosen =>
    unlocked (releaseDecision_put.mp chosen)
  unfold ChubbyImpl.releaseLock
  rw [if_neg (show ¬ PaxosService.leaderElectionHappened s.paxosService = true from Bool.false_ne_true)]
  split
  next chosen => exact absurd chosen kept
  all_goals exact ⟨_, rfl, rfl⟩

/-- A release of a locked path succeeds, frees the path and erases the caller's pair. -/
theorem releaseLock_locked (locked : Locked (s.found path)) :
    ∃ stored response, s.put path "FREE" = some stored ∧
      s.releaseLock client path = some (stored.eraseLock path client, .ok response) ∧
      response.success = true := by
  have chosen : releaseDecision (s.found path) = .put := releaseDecision_put.mpr locked
  unfold ChubbyImpl.releaseLock
  rw [if_neg (show ¬ PaxosService.leaderElectionHappened s.paxosService = true from Bool.false_ne_true),
    chosen]
  exact ⟨_, _, rfl, rfl, rfl⟩

end ReleaseCall

/-- A client takes a path exclusively while a second client has no lock. -/
def oneHolder : List Operation := [.keepAlive "1" 0, .acquireLock "1" "x" .exclusive]

end Chubby.Lock
