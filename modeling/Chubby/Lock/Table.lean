/-
This file proves when the modes in the database agree with the holders in the lock map.
-/

import Chubby.Lock.Operations

namespace Chubby.Lock

open Chubby.Library

/-- This service of a single server applies every `Put` at once. -/
structure Database where
  contents : String → Option String
  view : Int

def Database.empty : Database := ⟨fun _ => none, 0⟩

instance : PaxosService Database where
  get db path := db.contents path
  put db _ path mode := some { db with contents := Function.update db.contents path (some mode) }
  numServers := 1
  view db := db.view
  leaderElectionHappened _ := false

/-- The value of a path says how many clients hold it. -/
structure Fits (value : Option String) (holds : String → Prop) : Prop where
  exclusive : value = some "EXCLUSIVE" → ∃! client, holds client
  shared : value = some "SHARED" → ∃ client, holds client
  free : Vacant value → ∀ client, ¬ holds client

/-- The database and the lock map agree on every path. -/
def LockTable (s : ChubbyImpl Database) : Prop := ∀ path, Fits (s.found path) (s.Holds path)

/-- Only the single holder of a locked path releases it, and no client that holds a path expires. -/
def SoleHolder (s : Timed Database) : Operation → Prop
  | .releaseLock client path => Locked (s.chubby.found path) →
      ∀ holder, s.chubby.Holds path holder → holder = client
  | .checkAndExpireLeases now _ => ∀ client ∈ s.chubby.expiredClients now,
      ∀ path, ¬ s.chubby.Holds path client
  | _ => True

theorem onlyHolder_iff {σ : Type} {s : ChubbyImpl σ} {path client : String} :
    (∀ pair ∈ s.clientLockMap.toList, pair.1 = path → pair.2 = client) ↔
      ∀ holder, s.Holds path holder → holder = client := by
  constructor
  · intro every holder member
    exact every (path, holder) (Std.TreeSet.mem_toList.mpr member) rfl
  · rintro every ⟨_, holder⟩ member rfl
    exact every holder (Std.TreeSet.mem_toList.mp member)

theorem holdsNothing_iff {σ : Type} {s : ChubbyImpl σ} {client : String} :
    (∀ pair ∈ s.clientLockMap.toList, pair.2 ≠ client) ↔ ∀ path, ¬ s.Holds path client := by
  constructor
  · intro every path member
    exact every (path, client) (Std.TreeSet.mem_toList.mpr member) rfl
  · rintro every ⟨path, _⟩ member rfl
    exact every path (Std.TreeSet.mem_toList.mp member)

instance (s : Timed Database) : (operation : Operation) → Decidable (SoleHolder s operation)
  | .releaseLock client path => decidable_of_iff
      (Locked (s.chubby.found path) →
        ∀ pair ∈ s.chubby.clientLockMap.toList, pair.1 = path → pair.2 = client)
      (imp_congr_right fun _ => onlyHolder_iff)
  | .checkAndExpireLeases now _ => decidable_of_iff
      (∀ client ∈ s.chubby.expiredClients now, ∀ pair ∈ s.chubby.clientLockMap.toList, pair.2 ≠ client)
      (forall₂_congr fun _ _ => holdsNothing_iff)
  | .keepAlive _ _ | .acquireLock _ _ _ => isTrue trivial

/-- The database only ever holds a mode or `FREE`. -/
def Plain (s : ChubbyImpl Database) : Prop :=
  ∀ path, Vacant (s.found path) ∨ Locked (s.found path)

namespace ChubbyImpl

/-- An abstract `Put` returns and changes the value of its own path. -/
theorem put_database {s stored : ChubbyImpl Database} {path mode : String}
    (puts : s.put path mode = some stored) :
    stored.clientLockMap = s.clientLockMap ∧
      ∀ query, stored.found query = if query = path then some mode else s.found query := by
  cases puts
  refine ⟨rfl, fun query => ?_⟩
  exact Function.update_apply _ _ _ _

theorem expireKey_database {s handled : ChubbyImpl Database} {key : String}
    (expires : s.expireKey key = some handled) :
    handled.clientLockMap = s.clientLockMap ∧
      ∀ query, handled.found query =
        if query = key ∧ Locked (s.found query) then some "FREE" else s.found query := by
  unfold expireKey at expires
  split at expires
  next locked =>
    obtain ⟨map, found⟩ := put_database expires
    refine ⟨map, fun query => ?_⟩
    rw [found]
    by_cases same : query = key
    · rw [if_pos same, if_pos ⟨same, same ▸ locked⟩]
    · rw [if_neg same, if_neg fun both => same both.1]
  next unlocked =>
    cases expires
    refine ⟨rfl, fun query => (if_neg ?_).symm⟩
    rintro ⟨rfl, locked⟩
    exact unlocked locked

theorem expireKeys_database {s handled : ChubbyImpl Database} {keys : List String}
    (expires : keys.foldlM expireKey s = some handled) :
    handled.clientLockMap = s.clientLockMap ∧
      ∀ query, handled.found query =
        if query ∈ keys ∧ Locked (s.found query) then some "FREE" else s.found query := by
  induction keys generalizing s with
  | nil =>
      cases expires
      simp
  | cons key rest ih =>
      rw [List.foldlM_cons] at expires
      obtain ⟨middle, first, later⟩ := Option.bind_eq_some_iff.mp expires
      obtain ⟨map, found⟩ := expireKey_database first
      obtain ⟨map', found'⟩ := ih later
      refine ⟨map'.trans map, fun query => ?_⟩
      rw [found', found]
      by_cases now : query = key ∧ Locked (s.found query)
      · rw [if_pos now, if_neg fun both => Vacant.not_locked (.inr rfl) both.2,
          if_pos ⟨by rw [now.1]; exact List.mem_cons_self .., now.2⟩]
      · rw [if_neg now]
        have same : (query ∈ key :: rest ∧ Locked (s.found query)) ↔
            (query ∈ rest ∧ Locked (s.found query)) := by
          rw [List.mem_cons]
          tauto
        simp only [same]

/-- A pass frees every locked path of the expired clients and leaves the lock map alone. -/
theorem expireClients_database {s handled : ChubbyImpl Database} {order : List String}
    (released : order.foldlM releaseLocksForClient s = some handled) :
    handled.clientLockMap = s.clientLockMap ∧
      ∀ query, handled.found query =
        if (∃ client ∈ order, (query, client) ∈ s.clientLockMap) ∧ Locked (s.found query) then
          some "FREE" else s.found query := by
  induction order generalizing s with
  | nil =>
      cases released
      simp
  | cons client rest ih =>
      rw [List.foldlM_cons] at released
      obtain ⟨middle, first, later⟩ := Option.bind_eq_some_iff.mp released
      obtain ⟨map, found⟩ := expireKeys_database first
      obtain ⟨map', found'⟩ := ih later
      refine ⟨map'.trans map, fun query => ?_⟩
      simp only [found', found, map, mem_lockedKeys]
      by_cases now : (query, client) ∈ s.clientLockMap ∧ Locked (s.found query)
      · rw [if_pos now, if_neg fun both => Vacant.not_locked (.inr rfl) both.2,
          if_pos ⟨⟨client, List.mem_cons_self .., now.1⟩, now.2⟩]
      · rw [if_neg now]
        have same : ((∃ c ∈ client :: rest, (query, c) ∈ s.clientLockMap) ∧ Locked (s.found query)) ↔
            ((∃ c ∈ rest, (query, c) ∈ s.clientLockMap) ∧ Locked (s.found query)) := by
          simp only [List.exists_mem_cons_iff]
          tauto
        simp only [same]

end ChubbyImpl

theorem fits_text (mode : LockingMode) {holds : String → Prop} {client : String}
    (single : ∀ other, holds other ↔ other = client) : Fits (some mode.text) holds where
  exclusive _ := ⟨client, (single client).mpr rfl, fun other member => (single other).mp member⟩
  shared _ := ⟨client, (single client).mpr rfl⟩
  free unheld := absurd (locked_text mode) unheld.not_locked

theorem fits_shared {holds : String → Prop} {client : String} (member : holds client) :
    Fits (some "SHARED") holds where
  exclusive held := by simp at held
  shared _ := ⟨client, member⟩
  free unheld := absurd (locked_text .shared) unheld.not_locked

theorem fits_free {holds : String → Prop} : Fits (some "FREE") holds ↔ ∀ client, ¬ holds client := by
  constructor
  · intro fits
    exact fits.free (.inr rfl)
  · intro empty
    exact ⟨fun held => by simp at held, fun held => by simp at held, fun _ => empty⟩

/-- After a change of one path, the table only has to be checked there. -/
theorem LockTable.update {s next : ChubbyImpl Database} {path : String} (table : LockTable s)
    (found : ∀ query, query ≠ path → next.found query = s.found query)
    (holds : ∀ query, query ≠ path → next.Holds query = s.Holds query) :
    LockTable next ↔ Fits (next.found path) (next.Holds path) := by
  constructor
  · intro after
    exact after path
  · intro fits query
    by_cases same : query = path
    · rw [same]
      exact fits
    · rw [found query same, holds query same]
      exact table query

/-- A path that is taken while it is free gets its first and only holder. -/
theorem LockTable.grant {s stored : ChubbyImpl Database} {client path : String} {mode : LockingMode}
    (table : LockTable s) (free : Vacant (s.found path))
    (puts : s.nextSlot.put path mode.text = some stored) :
    LockTable (stored.insertLock path client) := by
  obtain ⟨map, found⟩ := ChubbyImpl.put_database puts
  have empty : ∀ holder, ¬ s.Holds path holder := (table path).free free
  have kept : ∀ query, stored.Holds query = s.Holds query := fun query => by
    unfold ChubbyImpl.Holds
    rw [map]
    rfl
  refine (table.update (fun query (different : query ≠ path) => ?_) fun query different => ?_).mpr ?_
  · exact (found query).trans (if_neg different)
  · funext holder
    rw [eq_iff_iff, ChubbyImpl.insertLock_holds, kept, or_iff_right fun same => different same.1]
  · have taken : (stored.insertLock path client).found path = some mode.text := by
      exact (found path).trans (if_pos rfl)
    rw [taken]
    refine @fits_text mode _ client fun other => ?_
    rw [ChubbyImpl.insertLock_holds, kept, or_iff_left (empty other)]
    exact and_iff_right rfl

/-- A further client joins the holders of a shared path. -/
theorem LockTable.join {s : ChubbyImpl Database} {client path : String} (table : LockTable s)
    (shared : s.found path = some "SHARED") : LockTable (s.nextSlot.insertLock path client) := by
  refine (table.update (fun query (different : query ≠ path) => ?_) fun query different => ?_).mpr ?_
  · rfl
  · funext holder
    rw [eq_iff_iff, ChubbyImpl.insertLock_holds]
    exact or_iff_right fun same => different same.1
  · have kept : (s.nextSlot.insertLock path client).found path = some "SHARED" := shared
    rw [kept]
    exact fits_shared (ChubbyImpl.insertLock_holds.mpr (.inl ⟨rfl, rfl⟩))

/-- A release keeps the table exactly when nobody else holds the path. -/
theorem LockTable.freed_iff {s stored : ChubbyImpl Database} {client path : String}
    (table : LockTable s) (puts : s.put path "FREE" = some stored) :
    LockTable (stored.eraseLock path client) ↔ ∀ holder, s.Holds path holder → holder = client := by
  obtain ⟨map, found⟩ := ChubbyImpl.put_database puts
  have kept : ∀ query, stored.Holds query = s.Holds query := fun query => by
    unfold ChubbyImpl.Holds
    rw [map]
  have free : (stored.eraseLock path client).found path = some "FREE" := (found path).trans (if_pos rfl)
  have local_ : LockTable (stored.eraseLock path client) ↔
      Fits (some "FREE") ((stored.eraseLock path client).Holds path) := by
    rw [← free]
    refine table.update (fun query different => ?_) fun query different => ?_
    · exact (found query).trans (if_neg different)
    · funext holder
      rw [eq_iff_iff, ChubbyImpl.eraseLock_holds, kept, and_iff_right fun same => different same.1]
  rw [local_, fits_free]
  refine forall_congr' fun holder => ?_
  rw [ChubbyImpl.eraseLock_holds, kept]
  tauto

/-- A pass keeps the table exactly when no expired client holds a path. -/
theorem LockTable.expired_iff {s handled : ChubbyImpl Database} {order : List String} (plain : Plain s)
    (table : LockTable s) {leases : AList fun _ : String => Nat}
    (released : order.foldlM ChubbyImpl.releaseLocksForClient { s with clientLeaseMap := leases } =
      some handled) :
    LockTable handled ↔ ∀ client ∈ order, ∀ path, ¬ s.Holds path client := by
  obtain ⟨map, found⟩ := ChubbyImpl.expireClients_database released
  constructor
  · intro after client member path holds
    have locked : Locked (s.found path) := by
      rcases plain path with free | locked
      · exact absurd holds ((table path).free free client)
      · exact locked
    have free : handled.found path = some "FREE" :=
      (found path).trans (if_pos ⟨⟨client, member, holds⟩, locked⟩)
    apply (after path).free (.inr free) client
    unfold ChubbyImpl.Holds
    rw [map]
    exact holds
  · intro empty path
    have kept : handled.found path = s.found path := by
      refine (found path).trans (if_neg ?_)
      rintro ⟨⟨client, member, holds⟩, _⟩
      exact empty client member path holds
    rw [kept]
    unfold ChubbyImpl.Holds
    rw [map]
    exact table path

theorem plain_initial (slotNumber : Int) : Plain (.initial Database.empty slotNumber) :=
  fun _ => .inl (.inl rfl)

theorem lockTable_initial (slotNumber : Int) : LockTable (.initial Database.empty slotNumber) := by
  intro path
  refine ⟨?_, ?_, ?_⟩
  · rintro ⟨⟩
  · rintro ⟨⟩
  · intro _ client
    exact Std.TreeSet.not_mem_emptyc

theorem Plain.put {s stored : ChubbyImpl Database} {path mode : String} (plain : Plain s)
    (puts : s.put path mode = some stored) (known : mode = "FREE" ∨ Locked (some mode)) :
    Plain stored := by
  intro query
  rw [(ChubbyImpl.put_database puts).2]
  split
  · rcases known with rfl | locked
    · exact .inl (.inr rfl)
    · exact .inr locked
  · exact plain query

theorem Plain.outcome {s next : ChubbyImpl Database} {operation : Operation} (plain : Plain s)
    (outcome : Outcome s operation next) : Plain next := by
  intro path
  cases outcome with
  | renewed => exact plain path
  | acquireAborted => exact plain path
  | releaseAborted _ => exact plain path
  | notLocked _ => exact plain path
  | refused => exact plain path
  | joined _ => exact plain path
  | @granted _ _ mode stored free puts =>
      have moved : Plain s.nextSlot := plain
      exact moved.put puts (.inr (locked_text mode)) path
  | freed locked puts => exact plain.put puts (.inl rfl) path
  | expired _ released =>
      rw [(ChubbyImpl.expireClients_database released).2]
      split
      · exact .inl (.inr rfl)
      · exact plain path

/-- One operation keeps the table exactly when it meets the guard. -/
theorem lockTable_step {s next : Timed Database} {operation : Operation}
    (plain : Plain s.chubby) (table : LockTable s.chubby) (taken : s.step operation = some next) :
    LockTable next.chubby ↔ SoleHolder s operation := by
  have outcome := Timed.step_outcome taken
  generalize next.chubby = after at outcome
  cases outcome with
  | renewed => exact iff_of_true table trivial
  | acquireAborted => exact iff_of_true table trivial
  | granted free puts => exact iff_of_true (table.grant free puts) trivial
  | joined shared => exact iff_of_true (table.join shared) trivial
  | refused => exact iff_of_true table trivial
  | releaseAborted aborts => cases aborts
  | freed locked puts =>
      rw [table.freed_iff puts]
      exact ⟨fun sole _ => sole, fun guard => guard locked⟩
  | notLocked unlocked => exact iff_of_true table fun locked => absurd locked unlocked
  | expired order released =>
      rw [LockTable.expired_iff plain table released]
      exact forall_congr' fun client => imp_congr_left order.mem_iff

/-- In every run, every operation leaves the database and the lock map in agreement exactly when
the single holders release their paths and no holder expires. -/
theorem lockTable_iff {slotNumber : Int} {operations : List Operation} {s : Timed Database}
    (ran : run Timed.step (Timed.initial Database.empty slotNumber) operations = some s) :
    EveryStep Timed.step (fun _ _ next => LockTable next.chubby)
        (Timed.initial Database.empty slotNumber) operations ↔
      Guarded Timed.step SoleHolder (Timed.initial Database.empty slotNumber) operations := by
  refine everyStep_iff_guarded_of_invariant (fun s => Plain s.chubby ∧ LockTable s.chubby) ?_ ?_ ?_ ran
  · rintro s operation next ⟨plain, table⟩ taken
    exact lockTable_step plain table taken
  · rintro s operation next ⟨plain, table⟩ allowed taken
    exact ⟨plain.outcome (Timed.step_outcome taken), (lockTable_step plain table taken).mpr allowed⟩
  · exact ⟨plain_initial slotNumber, lockTable_initial slotNumber⟩

/-- Two clients share a path and the first one releases it. -/
def sharedRelease : List Operation :=
  [.keepAlive "1" 0, .keepAlive "2" 0, .acquireLock "1" "x" .shared, .acquireLock "2" "x" .shared,
    .releaseLock "1" "x"]

/-- One client takes a path, releases it and takes it in the other mode. -/
def soleRelease : List Operation :=
  [.keepAlive "1" 0, .acquireLock "1" "x" .shared, .releaseLock "1" "x", .acquireLock "1" "x" .exclusive]

theorem lockTable_iff_soleRelease : ∃ s : Timed Database,
    run Timed.step (Timed.initial Database.empty 0) soleRelease = some s ∧
      EveryStep Timed.step (fun _ _ next => LockTable next.chubby)
        (Timed.initial Database.empty 0) soleRelease := by
  obtain ⟨s, ran, _⟩ := (Option.any_eq_true _ _).mp (by decide :
    (run Timed.step (Timed.initial Database.empty 0) soleRelease).any (fun _ => true) = true)
  have guarded : Guarded Timed.step SoleHolder (Timed.initial Database.empty 0) soleRelease := by decide
  exact ⟨s, ran, (lockTable_iff ran).mpr guarded⟩

/-- The database says that the path is free while the second client still holds it. -/
theorem lockTable_forgets : ∃ s : Timed Database,
    run Timed.step (Timed.initial Database.empty 0) sharedRelease = some s ∧
      s.chubby.found "x" = some "FREE" ∧ s.chubby.Holds "x" "2" ∧ ¬ LockTable s.chubby := by
  obtain ⟨s, ran, checked⟩ := (Option.any_eq_true _ _).mp (by decide :
    (run Timed.step (Timed.initial Database.empty 0) sharedRelease).any (fun s =>
      decide (s.chubby.found "x" = some "FREE" ∧ ("x", "2") ∈ s.chubby.clientLockMap)) = true)
  obtain ⟨free, holds⟩ := of_decide_eq_true checked
  exact ⟨s, ran, free, holds, fun table => (table "x").free (.inr free) "2" holds⟩

end Chubby.Lock
