/-
This file models the handlers of the lock service over the Paxos service that they call.
-/

import Chubby.Paxos.Server
import Mathlib.Data.List.AList
import Mathlib.Data.String.Basic

namespace Chubby.Lock

open Chubby.Paxos (HandlerError asInt)

/-- A client takes a lock in one of these modes. -/
inductive LockingMode where
  | shared
  | exclusive
  deriving DecidableEq, Repr

def LockingMode.text : LockingMode → String
  | .shared => "SHARED"
  | .exclusive => "EXCLUSIVE"

/-- The lock service uses these parts of its Paxos service; a `put` without a state never returns
to its caller. -/
class PaxosService (σ : Type) where
  get : σ → String → Option String
  put : σ → Int → String → String → Option σ
  numServers : Nat
  view : σ → Int
  leaderElectionHappened : σ → Bool

/-- Every response names the leader by the port that belongs to the view. -/
def leaderAddress (numServers : Nat) (view : Int) : String :=
  "127.0.0.1:" ++ toString (50051 + view.tmod numServers)

abbrev pairOrder : String × String → String × String → Ordering :=
  compareLex (compareOn Prod.fst) (compareOn Prod.snd)

/-- The pairs of `client_lock_map` are a path and a client, and the set orders them. -/
abbrev LockMap : Type := Std.TreeSet (String × String) pairOrder

instance : Std.LawfulEqCmp pairOrder where
  compare_self := by simp [compareLex_eq_eq, compareOn]
  eq_of_compare := by simp [compareLex_eq_eq, compareOn, Prod.ext_iff]

theorem mem_insert {locks : LockMap} {pair other : String × String} :
    other ∈ locks.insert pair ↔ other = pair ∨ other ∈ locks := by
  rw [Std.TreeSet.mem_insert, Std.LawfulEqCmp.compare_eq_iff_eq, eq_comm]

theorem mem_erase {locks : LockMap} {pair other : String × String} :
    other ∈ locks.erase pair ↔ other ≠ pair ∧ other ∈ locks := by
  rw [Std.TreeSet.mem_erase, Ne, Std.LawfulEqCmp.compare_eq_iff_eq, ne_comm]

/-- The times of the lease map are milliseconds of the steady clock. -/
structure ChubbyImpl (σ : Type) where
  paxosService : σ
  clientLockMap : LockMap
  clientLeaseMap : AList fun _ : String => Nat
  slotNumber : Int

def leaseTimeout : Nat := 12000

/-- The source leaves the atomic slot number without an initial value, so it may be any `int`. -/
def ChubbyImpl.initial {σ : Type} (paxosService : σ) (slotNumber : Int) : ChubbyImpl σ where
  paxosService := paxosService
  clientLockMap := ∅
  clientLeaseMap := ∅
  slotNumber := asInt slotNumber

/-- `AcquireLockResponse` and `ReleaseLockResponse` have these fields. -/
structure LockResponse where
  success : Bool
  errorMessage : String
  currentLeader : String
  deriving DecidableEq, Repr

structure KeepAliveResponse where
  success : Bool
  leaseTimeout : Nat
  epochNumber : Int
  errorMessage : String
  deriving DecidableEq, Repr

/-- The branch that a handler takes; a value or a mode that no branch tests leaves the response
as it was. -/
inductive Decision where
  | put
  | join
  | refuse (message : String)
  | unanswered
  deriving DecidableEq, Repr

def acquireDecision (session : Bool) (found : Option String) (mode : String) : Decision :=
  if !session then .refuse "NO_CLIENT_SESSION"
  else match found with
    | none => .put
    | some value =>
        if mode = "SHARED" then
          if value = "FREE" then .put
          else if value = "SHARED" then .join
          else if value = "EXCLUSIVE" then .refuse "EXCLUSIVE_LOCK_HELD"
          else .unanswered
        else if mode = "EXCLUSIVE" then
          if value = "FREE" then .put
          else if value = "SHARED" then .refuse "SHARED_LOCK_HELD"
          else if value = "EXCLUSIVE" then .refuse "EXCLUSIVE_LOCK_HELD"
          else .unanswered
        else .unanswered

def releaseDecision (found : Option String) : Decision :=
  match found with
  | none => .refuse "TRYING_TO_RELEASE_UNACQUIRED_LOCK"
  | some value =>
      if value = "FREE" then .refuse "TRYING_TO_RELEASE_UNACQUIRED_LOCK"
      else if value = "SHARED" ∨ value = "EXCLUSIVE" then .put
      else .unanswered

/-- The database shows a mode in which the path is locked. -/
def Locked (found : Option String) : Prop := found = some "SHARED" ∨ found = some "EXCLUSIVE"

instance (found : Option String) : Decidable (Locked found) :=
  inferInstanceAs (Decidable (_ ∨ _))

/-- The database shows that nobody has the path. -/
def Vacant (found : Option String) : Prop := found = none ∨ found = some "FREE"

instance (found : Option String) : Decidable (Vacant found) :=
  inferInstanceAs (Decidable (_ ∨ _))

theorem Vacant.not_locked {found : Option String} (free : Vacant found) : ¬ Locked found := by
  rcases free with rfl | rfl <;> decide

theorem locked_text (mode : LockingMode) : Locked (some mode.text) := by
  cases mode
  · exact .inl rfl
  · exact .inr rfl

theorem LockingMode.text_eq_shared {mode : LockingMode} : mode.text = "SHARED" ↔ mode = .shared := by
  cases mode <;> decide

theorem acquireDecision_put {session : Bool} {found : Option String} {mode : String}
    (chosen : acquireDecision session found mode = .put) :
    session = true ∧ Vacant found := by
  cases session <;> cases found <;> grind [acquireDecision, Vacant]

theorem acquireDecision_join {session : Bool} {found : Option String} {mode : String}
    (chosen : acquireDecision session found mode = .join) :
    session = true ∧ mode = "SHARED" ∧ found = some "SHARED" := by
  cases session <;> cases found <;> grind [acquireDecision]

theorem acquireDecision_known {session : Bool} {found : Option String} {mode : LockingMode}
    (known : Vacant found ∨ Locked found) :
    acquireDecision session found mode.text ≠ .unanswered := by
  cases session <;> rcases known with (rfl | rfl) | rfl | rfl <;> cases mode <;> decide

theorem releaseDecision_ne_join {found : Option String} : releaseDecision found ≠ .join := by
  cases found <;> grind [releaseDecision]

theorem releaseDecision_put {found : Option String} : releaseDecision found = .put ↔ Locked found := by
  cases found <;> grind [releaseDecision, Locked]

namespace ChubbyImpl

variable {σ : Type}

def insertLock (s : ChubbyImpl σ) (path client : String) : ChubbyImpl σ :=
  { s with clientLockMap := s.clientLockMap.insert (path, client) }

def eraseLock (s : ChubbyImpl σ) (path client : String) : ChubbyImpl σ :=
  { s with clientLockMap := s.clientLockMap.erase (path, client) }

def hasSession (s : ChubbyImpl σ) (client : String) : Bool := (s.clientLeaseMap.lookup client).isSome

/-- The increment of the atomic `int` wraps. -/
def nextSlot (s : ChubbyImpl σ) : ChubbyImpl σ := { s with slotNumber := asInt (s.slotNumber + 1) }

def lockedKeys (s : ChubbyImpl σ) (client : String) : List String :=
  (s.clientLockMap.toList.filter fun pair => pair.2 = client).map Prod.fst

def expiredClients (s : ChubbyImpl σ) (now : Nat) : List String :=
  (s.clientLeaseMap.entries.filter fun entry => entry.2 ≤ now).map Sigma.fst

/-- The lock map has the client among the holders of the path. -/
def Holds (s : ChubbyImpl σ) (path client : String) : Prop :=
  (path, client) ∈ s.clientLockMap

theorem insertLock_holds {s : ChubbyImpl σ} {path client query other : String} :
    (s.insertLock path client).Holds query other ↔ (query = path ∧ other = client) ∨ s.Holds query other := by
  unfold Holds insertLock
  rw [mem_insert, Prod.mk.injEq]

theorem eraseLock_holds {s : ChubbyImpl σ} {path client query other : String} :
    (s.eraseLock path client).Holds query other ↔
      ¬ (query = path ∧ other = client) ∧ s.Holds query other := by
  unfold Holds eraseLock
  rw [mem_erase, Ne, Prod.mk.injEq]

theorem mem_lockedKeys {s : ChubbyImpl σ} {client path : String} :
    path ∈ s.lockedKeys client ↔ (path, client) ∈ s.clientLockMap := by
  rw [lockedKeys, List.mem_map]
  constructor
  · rintro ⟨⟨_, other⟩, member, rfl⟩
    rw [List.mem_filter, Std.TreeSet.mem_toList, decide_eq_true_iff] at member
    obtain ⟨member, rfl⟩ := member
    exact member
  · intro member
    exact ⟨(path, client), List.mem_filter.mpr ⟨Std.TreeSet.mem_toList.mpr member, decide_eq_true rfl⟩, rfl⟩

/-- A client without a lease has one that ended at the epoch of the clock. -/
def leaseOf (s : ChubbyImpl σ) (client : String) : Nat := (s.clientLeaseMap.lookup client).getD 0

/-- A handler that read the deadline on its arrival sleeps until 100 ms before it, or until the lease
is over. -/
def keepAliveWakes (s : ChubbyImpl σ) (client : String) (deadline now : Nat) : Prop :=
  deadline ≤ now + 100 ∨ s.leaseOf client ≤ now

instance (s : ChubbyImpl σ) (client : String) (deadline now : Nat) :
    Decidable (s.keepAliveWakes client deadline now) :=
  inferInstanceAs (Decidable (_ ∨ _))

variable [PaxosService σ]

def found (s : ChubbyImpl σ) (path : String) : Option String := PaxosService.get s.paxosService path

def currentLeader (s : ChubbyImpl σ) : String :=
  leaderAddress (PaxosService.numServers σ) (PaxosService.view s.paxosService)

/-- `Put` hands the pair to Paxos for the current slot number and learns nothing of its fate. -/
def put (s : ChubbyImpl σ) (path mode : String) : Option (ChubbyImpl σ) :=
  (PaxosService.put s.paxosService s.slotNumber path mode).map fun paxosService =>
    { s with paxosService }

/-- The slot number moves before the handler decides. The call that a server whose leader is dead
makes to the next leader comes before this section. -/
def acquireLock (s : ChubbyImpl σ) (client path mode : String) :
    Option (ChubbyImpl σ × Except HandlerError LockResponse) :=
  if PaxosService.leaderElectionHappened s.paxosService then some (s, .error (.abortedStatus ""))
  else
    let moved := s.nextSlot
    match acquireDecision (moved.hasSession client) (moved.found path) mode with
    | .put => (moved.put path mode).map fun stored =>
        (stored.insertLock path client, .ok ⟨true, "NO_ERROR", stored.currentLeader⟩)
    | .join => some (moved.insertLock path client, .ok ⟨true, "NO_ERROR", moved.currentLeader⟩)
    | .refuse message => some (moved, .ok ⟨false, message, moved.currentLeader⟩)
    | .unanswered => some (moved, .ok ⟨false, "", moved.currentLeader⟩)

/-- The handler never asks whether the client holds the lock, and keeps the slot number. -/
def releaseLock (s : ChubbyImpl σ) (client path : String) :
    Option (ChubbyImpl σ × Except HandlerError LockResponse) :=
  if PaxosService.leaderElectionHappened s.paxosService then some (s, .error (.abortedStatus ""))
  else
    match releaseDecision (s.found path) with
    | .put => (s.put path "FREE").map fun stored =>
        (stored.eraseLock path client, .ok ⟨true, "NO_ERROR", stored.currentLeader⟩)
    | .refuse message => some (s, .ok ⟨false, message, s.currentLeader⟩)
    | .join | .unanswered => some (s, .ok ⟨false, "", s.currentLeader⟩)

/-- The lease is renewed at the time at which the handler wakes up. -/
def keepAlive (s : ChubbyImpl σ) (client : String) (now : Nat) : ChubbyImpl σ × KeepAliveResponse :=
  ({ s with clientLeaseMap := s.clientLeaseMap.insert client (now + leaseTimeout) },
    ⟨true, (now + leaseTimeout) / 1000, PaxosService.view s.paxosService, ""⟩)

def expireKey (s : ChubbyImpl σ) (key : String) : Option (ChubbyImpl σ) :=
  if Locked (s.found key) then s.put key "FREE" else some s

/-- The pairs of the client stay in `client_lock_map`. -/
def releaseLocksForClient (s : ChubbyImpl σ) (client : String) : Option (ChubbyImpl σ) :=
  (s.lockedKeys client).foldlM expireKey s

/-- The order of the hash map decides in which order the clients of one pass expire. -/
def checkAndExpireLeases (s : ChubbyImpl σ) (now : Nat) (order : List String) :
    Option (ChubbyImpl σ) :=
  if order.Perm (s.expiredClients now) then
    order.foldlM releaseLocksForClient
      { s with clientLeaseMap := order.foldl (fun leases client => leases.erase client) s.clientLeaseMap }
  else none

end ChubbyImpl

end Chubby.Lock
