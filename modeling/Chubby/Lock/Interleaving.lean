/-
This file lets the lock handlers and the expiry thread of one server run section by section.
-/

import Chubby.Lock.PendingExpiry

namespace Chubby.Lock

open Chubby.Library

inductive LockTask where
  | acquire (mode : String)
  | release
  deriving DecidableEq, Repr

namespace LockTask

/-- The branch of a handler whose client has a session. -/
def decision (task : LockTask) (found : Option String) : Decision :=
  match task with
  | .acquire mode => acquireDecision true found mode
  | .release => releaseDecision found

def putValue : LockTask → String
  | .acquire mode => mode
  | .release => "FREE"

end LockTask

/-- The key lock is held in every stage from `locked` to `settled`. A handler whose branch changes
something is `decided` until it has called `Put`, and then `stored` until it has changed the lock map. -/
inductive ThreadStage where
  | waiting
  | locked
  | checked
  | decided (decision : Decision)
  | stored
  | settled (success : Bool) (message : String)
  | answered (response : LockResponse)
  deriving DecidableEq, Repr

def ThreadStage.holds : ThreadStage → Bool
  | .waiting | .answered _ => false
  | .locked | .checked | .decided _ | .stored | .settled _ _ => true

structure LockThread where
  client : String
  path : String
  task : LockTask
  stage : ThreadStage
  deriving DecidableEq, Repr

/-- What a handler that changes the value of its path does to the lock map. -/
def LockThread.record (thread : LockThread) (s : ChubbyImpl Database) : ChubbyImpl Database :=
  match thread.task with
  | .acquire _ => s.insertLock thread.path thread.client
  | .release => s.eraseLock thread.path thread.client

/-- The expiry thread at the first of its keys; `freed` names a key whose lock it still holds. -/
inductive KeyStage where
  | resting
  | locked
  | found (locked : Bool)
  | freed (key : String)
  deriving DecidableEq, Repr

/-- The server with the threads of its handlers and its expiry thread, which still has to look up the
keys of `expiredClients` and to free the `lockedKeys` of `clientId`. -/
structure Interleaved where
  chubby : ChubbyImpl Database
  clock : Nat
  threads : List LockThread
  expiredClients : List String
  clientId : String
  lockedKeys : List String
  keyStage : KeyStage

/-- A label names the thread that runs one section. -/
inductive SectionLabel where
  | keepAlive (client : String) (deadline now : Nat)
  | acquireLock (client path mode : String)
  | releaseLock (client path : String)
  | lock (thread : Nat)
  | checkSession (thread : Nat)
  | readValue (thread : Nat)
  | put (thread : Nat)
  | record (thread : Nat)
  | answer (thread : Nat)
  | collect (now : Nat) (order : List String)
  | lookUp
  | lockKey
  | readKey
  | freeKey (now : Nat)
  | unlockKey
  deriving DecidableEq, Repr

namespace Interleaved

def initial (slotNumber : Int) : Interleaved where
  chubby := .initial .empty slotNumber
  clock := 0
  threads := []
  expiredClients := []
  clientId := ""
  lockedKeys := []
  keyStage := .resting

/-- The expiry thread has the lock of the path. -/
def expiryHolds (s : Interleaved) (path : String) : Bool :=
  match s.keyStage with
  | .resting => false
  | .locked | .found _ => s.lockedKeys.head? = some path
  | .freed key => key = path

def keyFree (s : Interleaved) (path : String) : Bool :=
  (s.threads.all fun thread => thread.path ≠ path || !thread.stage.holds) && !s.expiryHolds path

def setStage (s : Interleaved) (k : Nat) (thread : LockThread) (stage : ThreadStage) : Interleaved :=
  { s with threads := s.threads.set k { thread with stage } }

def arrive (s : Interleaved) (client path : String) (task : LockTask) : Interleaved :=
  { s with threads := s.threads ++ [⟨client, path, task, .waiting⟩] }

/-- `AcquireLock` moves the slot number as soon as it has the key lock. -/
def enter (s : Interleaved) (k : Nat) (thread : LockThread) : Interleaved :=
  let chubby := match thread.task with
    | .acquire _ => s.chubby.nextSlot
    | .release => s.chubby
  { s with chubby }.setStage k thread .locked

def lock (s : Interleaved) (k : Nat) : Option Interleaved :=
  match s.threads[k]? with
  | none => none
  | some thread =>
      if thread.stage = .waiting ∧ s.keyFree thread.path then some (s.enter k thread) else none

/-- Only `AcquireLock` asks for a session, and without one it reads no value. -/
def checkSession (s : Interleaved) (k : Nat) : Option Interleaved :=
  match s.threads[k]? with
  | none => none
  | some thread =>
      match thread.task, thread.stage with
      | .acquire _, .locked => some (s.setStage k thread
          (if s.chubby.hasSession thread.client then .checked else .settled false "NO_CLIENT_SESSION"))
      | _, _ => none

/-- The handler has come to the test of the value. -/
def Reads (thread : LockThread) : Prop :=
  match thread.task with
  | .acquire _ => thread.stage = .checked
  | .release => thread.stage = .locked

instance : DecidablePred Reads := fun thread => by
  unfold Reads
  cases thread.task <;> dsimp only <;> infer_instance

def readValue (s : Interleaved) (k : Nat) : Option Interleaved :=
  match s.threads[k]? with
  | none => none
  | some thread =>
      if Reads thread then
        some (s.setStage k thread (match thread.task.decision (s.chubby.found thread.path) with
          | .put => .decided .put
          | .join => .decided .join
          | .refuse message => .settled false message
          | .unanswered => .settled false ""))
      else none

/-- `Put` stores its pair at once, where the source has a proposal do it. -/
def put (s : Interleaved) (k : Nat) : Option Interleaved :=
  match s.threads[k]? with
  | none => none
  | some thread =>
      if thread.stage = .decided .put then
        (s.chubby.put thread.path thread.task.putValue).map fun chubby =>
          { s with chubby }.setStage k thread .stored
      else none

/-- The lock map changes under its own mutex. -/
def record (s : Interleaved) (k : Nat) : Option Interleaved :=
  match s.threads[k]? with
  | none => none
  | some thread =>
      if thread.stage = .stored ∨ thread.stage = .decided .join then
        some ({ s with chubby := thread.record s.chubby }.setStage k thread (.settled true "NO_ERROR"))
      else none

/-- The handler names the leader and releases the key lock. -/
def answer (s : Interleaved) (k : Nat) : Option Interleaved :=
  match s.threads[k]? with
  | none => none
  | some thread =>
      match thread.stage with
      | .settled success message =>
          some (s.setStage k thread (.answered ⟨success, message, s.chubby.currentLeader⟩))
      | _ => none

/-- The renewal and the collection are sections under `lease_map_mutex`. -/
def keepAlive (s : Interleaved) (client : String) (deadline now : Nat) : Option Interleaved :=
  if s.clock ≤ now ∧ s.chubby.keepAliveWakes client deadline now then
    some { s with chubby := (s.chubby.keepAlive client now).1, clock := now }
  else none

def collect (s : Interleaved) (now : Nat) (order : List String) : Option Interleaved :=
  if s.expiredClients = [] ∧ s.lockedKeys = [] ∧ s.keyStage = .resting ∧ s.clock ≤ now ∧
      order.Perm (s.chubby.expiredClients now) then
    let leases := order.foldl (fun leases client => leases.erase client) s.chubby.clientLeaseMap
    some { s with
      chubby := { s.chubby with clientLeaseMap := leases }
      clock := now
      expiredClients := order }
  else none

def lookUp (s : Interleaved) : Option Interleaved :=
  match s.keyStage, s.lockedKeys, s.expiredClients with
  | .resting, [], client :: rest => some { s with
      expiredClients := rest
      clientId := client
      lockedKeys := s.chubby.lockedKeys client }
  | _, _, _ => none

def lockKey (s : Interleaved) : Option Interleaved :=
  match s.keyStage, s.lockedKeys with
  | .resting, key :: _ => if s.keyFree key then some { s with keyStage := .locked } else none
  | _, _ => none

def readKey (s : Interleaved) : Option Interleaved :=
  match s.keyStage, s.lockedKeys with
  | .locked, key :: _ => some { s with keyStage := .found (Locked (s.chubby.found key)) }
  | _, _ => none

def freeKey (s : Interleaved) (now : Nat) : Option Interleaved :=
  match s.keyStage, s.lockedKeys with
  | .found locked, key :: rest =>
      if s.clock ≤ now then
        (if locked then s.chubby.put key "FREE" else some s.chubby).map fun chubby =>
          { s with chubby, clock := now, lockedKeys := rest, keyStage := .freed key }
      else none
  | _, _ => none

def unlockKey (s : Interleaved) : Option Interleaved :=
  match s.keyStage with
  | .freed _ => some { s with keyStage := .resting }
  | _ => none

def step (s : Interleaved) : SectionLabel → Option Interleaved
  | .keepAlive client deadline now => s.keepAlive client deadline now
  | .acquireLock client path mode => some (s.arrive client path (.acquire mode))
  | .releaseLock client path => some (s.arrive client path .release)
  | .lock k => s.lock k
  | .checkSession k => s.checkSession k
  | .readValue k => s.readValue k
  | .put k => s.put k
  | .record k => s.record k
  | .answer k => s.answer k
  | .collect now order => s.collect now order
  | .lookUp => s.lookUp
  | .lockKey => s.lockKey
  | .readKey => s.readKey
  | .freeKey now => s.freeKey now
  | .unlockKey => s.unlockKey

end Interleaved

end Chubby.Lock
