/-
This file proves when the expiry of a lease releases exactly the holds of its client.
-/

import Chubby.Lock.Table

namespace Chubby.Lock

open Chubby.Library

/-- The client is the last holder of the path. -/
def LastHolder (s : ChubbyImpl Database) (client path : String) : Prop :=
  s.Holds path client ∧ ∀ other, s.Holds path other → other = client

/-- The holders of every path are the previous ones without the client. -/
def DropsHolds (s next : ChubbyImpl Database) (client : String) : Prop :=
  ∀ path other, next.Holds path other ↔ s.Holds path other ∧ other ≠ client

/-- The paths of which the client was the last holder become free. -/
def FreesLast (s next : ChubbyImpl Database) (client : String) : Prop :=
  ∀ path, LastHolder s client path → next.found path = some "FREE"

/-- The paths that the client did not hold, or that another client still holds, keep their value. -/
def KeepsOthers (s next : ChubbyImpl Database) (client : String) : Prop :=
  ∀ path, (¬ s.Holds path client ∨ ∃ other, other ≠ client ∧ s.Holds path other) →
    next.found path = s.found path

structure ReleasesExactly (s next : ChubbyImpl Database) (client : String) : Prop where
  dropsHolds : DropsHolds s next client
  freesLast : FreesLast s next client
  keepsOthers : KeepsOthers s next client

section OneClient

variable {s next : ChubbyImpl Database} {client : String}

/-- The loop over the keys of a client always ends. -/
theorem releaseLocksForClient_ends (s : ChubbyImpl Database) (client : String) :
    ∃ next, s.releaseLocksForClient client = some next := by
  have ends (keys : List String) : ∀ s : ChubbyImpl Database,
      ∃ next, keys.foldlM ChubbyImpl.expireKey s = some next := by
    induction keys with
    | nil => exact fun s => ⟨s, rfl⟩
    | cons key rest ih =>
        intro s
        obtain ⟨middle, first⟩ : ∃ middle, s.expireKey key = some middle := by
          unfold ChubbyImpl.expireKey
          split <;> exact ⟨_, rfl⟩
        obtain ⟨next, later⟩ := ih middle
        exact ⟨next, by rw [List.foldlM_cons, first]; exact later⟩
  exact ends (s.lockedKeys client) s

/-- The expiry of a client frees the locked paths that it holds and leaves the lock map alone. -/
theorem releaseLocksForClient_database (released : s.releaseLocksForClient client = some next) :
    next.clientLockMap = s.clientLockMap ∧ ∀ path, next.found path =
      if (path, client) ∈ s.clientLockMap ∧ Locked (s.found path) then some "FREE" else s.found path := by
  obtain ⟨map, found⟩ := ChubbyImpl.expireKeys_database released
  refine ⟨map, fun path => ?_⟩
  simp only [found, ChubbyImpl.mem_lockedKeys]

theorem dropsHolds_iff (released : s.releaseLocksForClient client = some next) :
    DropsHolds s next client ↔ ∀ path, ¬ s.Holds path client := by
  have same (path other : String) : next.Holds path other ↔ s.Holds path other := by
    unfold ChubbyImpl.Holds
    rw [(releaseLocksForClient_database released).1]
  constructor
  · intro drops path holds
    exact ((drops path client).mp ((same path client).mpr holds)).2 rfl
  · intro nothing path other
    rw [same]
    refine ⟨fun holds => ⟨holds, ?_⟩, And.left⟩
    rintro rfl
    exact nothing path holds

theorem freesLast_iff (released : s.releaseLocksForClient client = some next) :
    FreesLast s next client ↔
      ∀ path, LastHolder s client path → Locked (s.found path) ∨ s.found path = some "FREE" := by
  refine forall₂_congr fun path last => ?_
  rw [(releaseLocksForClient_database released).2]
  have holds : (path, client) ∈ s.clientLockMap := last.1
  by_cases locked : Locked (s.found path)
  · simp [holds, locked]
  · simp [locked]

theorem keepsOthers_iff (released : s.releaseLocksForClient client = some next) :
    KeepsOthers s next client ↔ ∀ path other, s.Holds path client → other ≠ client →
      s.Holds path other → ¬ Locked (s.found path) := by
  constructor
  · intro keeps path other holds different also locked
    have kept := keeps path (.inr ⟨other, different, also⟩)
    rw [(releaseLocksForClient_database released).2, if_pos ⟨holds, locked⟩] at kept
    exact Vacant.not_locked (.inr kept.symm) locked
  · intro unlocked path either
    rw [(releaseLocksForClient_database released).2]
    refine if_neg fun ⟨holds, locked⟩ => ?_
    obtain absent | ⟨other, different, also⟩ := either
    · exact absent holds
    · exact unlocked path other holds different also locked

/-- In an agreeing state every path that the client holds alone becomes free. -/
theorem LockTable.freesLast (table : LockTable s) (plain : Plain s)
    (released : s.releaseLocksForClient client = some next) : FreesLast s next client := by
  refine (freesLast_iff released).mpr fun path last => ?_
  obtain vacant | locked := plain path
  · exact absurd last.1 ((table path).free vacant client)
  · exact .inl locked

end OneClient

/-- The expiry of a client's lease releases exactly its holds when it has none, and never otherwise. -/
theorem releasesExactly_iff (s : ChubbyImpl Database) (client : String) :
    ∃ next, s.releaseLocksForClient client = some next ∧
      (ReleasesExactly s next client ↔ ∀ path, ¬ s.Holds path client) := by
  obtain ⟨next, released⟩ := releaseLocksForClient_ends s client
  refine ⟨next, released, fun exactly => (dropsHolds_iff released).mp exactly.dropsHolds, ?_⟩
  intro nothing
  refine ⟨(dropsHolds_iff released).mpr nothing, ?_, ?_⟩
  · exact fun path last => absurd last.1 (nothing path)
  · exact (keepsOthers_iff released).mpr fun path _ holds => absurd holds (nothing path)

/-- A run whose operations meet the guard ends in an agreeing state. -/
theorem lockTable_of_run {slotNumber : Int} {operations : List Operation} {s : Timed Database}
    (guarded : Guarded Timed.step SoleHolder (Timed.initial Database.empty slotNumber) operations)
    (ran : run Timed.step (Timed.initial Database.empty slotNumber) operations = some s) :
    Plain s.chubby ∧ LockTable s.chubby := by
  refine @run_invariant _ _ _ _ (fun s => Plain s.chubby ∧ LockTable s.chubby) ?_ _ _ _ ?_ guarded ran
  · rintro s operation next ⟨plain, table⟩ allowed taken
    exact ⟨plain.outcome (Timed.step_outcome taken), (lockTable_step plain table taken).mpr allowed⟩
  · exact ⟨plain_initial slotNumber, lockTable_initial slotNumber⟩

/-- Two clients share a path. -/
def sharedTwice : List Operation :=
  [.keepAlive "1" 0, .keepAlive "2" 0, .acquireLock "1" "x" .shared, .acquireLock "2" "x" .shared]

/-- The expiry of the first client frees the path that the second one still holds, and the first
client stays among the holders. -/
theorem release_takes_other : ∃ s next : ChubbyImpl Database, LockTable s ∧
    s.releaseLocksForClient "1" = some next ∧ next.found "x" = some "FREE" ∧
    next.Holds "x" "1" ∧ next.Holds "x" "2" ∧ ¬ ReleasesExactly s next "1" := by
  obtain ⟨s, ran, checked⟩ := (Option.any_eq_true _ _).mp (by decide :
    (run Timed.step (Timed.initial Database.empty 0) sharedTwice).any (fun s =>
      decide (s.chubby.found "x" = some "SHARED" ∧ ("x", "1") ∈ s.chubby.clientLockMap ∧
        ("x", "2") ∈ s.chubby.clientLockMap)) = true)
  obtain ⟨shared, one, two⟩ := of_decide_eq_true checked
  have table : LockTable s.chubby := (lockTable_of_run (by decide) ran).2
  obtain ⟨next, released⟩ := releaseLocksForClient_ends s.chubby "1"
  obtain ⟨map, found⟩ := releaseLocksForClient_database released
  have stays (exactly : ReleasesExactly s.chubby next "1") : False :=
    (dropsHolds_iff released).mp exactly.dropsHolds "x" one
  refine ⟨s.chubby, next, table, released, ?_, ?_, ?_, stays⟩
  · rw [found, if_pos ⟨one, .inl shared⟩]
  · unfold ChubbyImpl.Holds
    rw [map]
    exact one
  · unfold ChubbyImpl.Holds
    rw [map]
    exact two

end Chubby.Lock
