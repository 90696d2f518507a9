/-
This file lets one server handle the operations of its clients one at a time.
-/

import Chubby.Library.Runs
import Chubby.Lock.Server

namespace Chubby.Lock

/-- The lease checker is an operation of its own, at a time and in an order of the clients. -/
inductive Operation where
  | keepAlive (client : String) (now : Nat)
  | acquireLock (client path : String) (mode : LockingMode)
  | releaseLock (client path : String)
  | checkAndExpireLeases (now : Nat) (order : List String)
  deriving DecidableEq, Repr

/-- The clock shows the last time that an operation has read. -/
structure Timed (σ : Type) where
  chubby : ChubbyImpl σ
  clock : Nat

namespace Timed

variable {σ : Type} [PaxosService σ]

def initial (paxosService : σ) (slotNumber : Int) : Timed σ := ⟨.initial paxosService slotNumber, 0⟩

def step (s : Timed σ) : Operation → Option (Timed σ)
  | .keepAlive client now =>
      if s.clock ≤ now ∧ s.chubby.keepAliveWakes client (s.chubby.leaseOf client) now then
        some ⟨(s.chubby.keepAlive client now).1, now⟩ else none
  | .acquireLock client path mode =>
      (s.chubby.acquireLock client path mode.text).map fun handled => ⟨handled.1, s.clock⟩
  | .releaseLock client path =>
      (s.chubby.releaseLock client path).map fun handled => ⟨handled.1, s.clock⟩
  | .checkAndExpireLeases now order =>
      if s.clock ≤ now then
        (s.chubby.checkAndExpireLeases now order).map fun handled => ⟨handled, now⟩ else none

end Timed

variable {σ : Type} [PaxosService σ]

/-- The ways in which an operation ends, with the lock map and the calls of `Put` in each. -/
inductive Outcome (s : ChubbyImpl σ) : Operation → ChubbyImpl σ → Prop where
  | renewed {client : String} {now : Nat} :
      Outcome s (.keepAlive client now) (s.keepAlive client now).1
  | acquireAborted {client path : String} {mode : LockingMode} :
      Outcome s (.acquireLock client path mode) s
  | granted {client path : String} {mode : LockingMode} {stored : ChubbyImpl σ}
      (free : Vacant (s.found path))
      (puts : s.nextSlot.put path mode.text = some stored) :
      Outcome s (.acquireLock client path mode) (stored.insertLock path client)
  | joined {client path : String} (shared : s.found path = some "SHARED") :
      Outcome s (.acquireLock client path .shared) (s.nextSlot.insertLock path client)
  | refused {client path : String} {mode : LockingMode} :
      Outcome s (.acquireLock client path mode) s.nextSlot
  | releaseAborted {client path : String} (aborts : PaxosService.leaderElectionHappened s.paxosService) :
      Outcome s (.releaseLock client path) s
  | freed {client path : String} {stored : ChubbyImpl σ} (locked : Locked (s.found path))
      (puts : s.put path "FREE" = some stored) :
      Outcome s (.releaseLock client path) (stored.eraseLock path client)
  | notLocked {client path : String} (unlocked : ¬ Locked (s.found path)) :
      Outcome s (.releaseLock client path) s
  | expired {now : Nat} {order : List String} {leases : AList fun _ : String => Nat}
      {handled : ChubbyImpl σ} (expired : order.Perm (s.expiredClients now))
      (released : order.foldlM ChubbyImpl.releaseLocksForClient { s with clientLeaseMap := leases } =
        some handled) :
      Outcome s (.checkAndExpireLeases now order) handled

namespace ChubbyImpl

@[simp] theorem nextSlot_found (s : ChubbyImpl σ) (path : String) :
    s.nextSlot.found path = s.found path := rfl

/-- The reply of `AcquireLock` tells which branch it took. -/
theorem acquireLock_cases {s s' : ChubbyImpl σ} {client path mode : String}
    {reply : Except Paxos.HandlerError LockResponse}
    (handled : s.acquireLock client path mode = some (s', reply)) :
    (s' = s ∧ reply = .error (.abortedStatus "")) ∨
    (acquireDecision (s.hasSession client) (s.found path) mode = .put ∧
      ∃ stored, s.nextSlot.put path mode = some stored ∧ s' = stored.insertLock path client) ∨
    (acquireDecision (s.hasSession client) (s.found path) mode = .join ∧
      s' = s.nextSlot.insertLock path client) ∨
    (s' = s.nextSlot ∧ ∃ response, reply = .ok response ∧ response.success = false) := by
  unfold acquireLock at handled
  split at handled
  · cases handled
    exact .inl ⟨rfl, rfl⟩
  · dsimp only at handled
    split at handled
    next chosen =>
      obtain ⟨stored, puts, same⟩ := Option.map_eq_some_iff.mp handled
      cases same
      exact .inr (.inl ⟨chosen, stored, puts, rfl⟩)
    next chosen =>
      cases handled
      exact .inr (.inr (.inl ⟨chosen, rfl⟩))
    all_goals
      cases handled
      exact .inr (.inr (.inr ⟨rfl, _, rfl, rfl⟩))

/-- The reply of `ReleaseLock` tells whether it freed the path. -/
theorem releaseLock_cases {s s' : ChubbyImpl σ} {client path : String}
    {reply : Except Paxos.HandlerError LockResponse}
    (handled : s.releaseLock client path = some (s', reply)) :
    (s' = s ∧ PaxosService.leaderElectionHappened s.paxosService ∧
      reply = .error (.abortedStatus "")) ∨
    (∃ stored response, Locked (s.found path) ∧ s.put path "FREE" = some stored ∧
      s' = stored.eraseLock path client ∧ reply = .ok response ∧ response.success = true) ∨
    (s' = s ∧ ¬ Locked (s.found path) ∧
      ∃ response, reply = .ok response ∧ response.success = false) := by
  unfold releaseLock at handled
  split at handled
  next aborts =>
    cases handled
    exact .inl ⟨rfl, aborts, rfl⟩
  · split at handled
    next chosen =>
      obtain ⟨stored, puts, same⟩ := Option.map_eq_some_iff.mp handled
      cases same
      exact .inr (.inl ⟨stored, _, releaseDecision_put.mp chosen, puts, rfl, rfl, rfl⟩)
    all_goals
      next chosen =>
        cases handled
        have unlocked : ¬ Locked (s.found path) := by
          intro locked
          rw [releaseDecision_put.mpr locked] at chosen
          cases chosen
        exact .inr (.inr ⟨rfl, unlocked, _, rfl, rfl⟩)

end ChubbyImpl

namespace Timed

/-- Every step of the server is one of the listed outcomes. -/
theorem step_outcome {s s' : Timed σ} {operation : Operation}
    (taken : s.step operation = some s') : Outcome s.chubby operation s'.chubby := by
  cases operation with
  | keepAlive client now =>
      simp only [step, Option.ite_none_right_eq_some, Option.some.injEq] at taken
      obtain ⟨_, rfl⟩ := taken
      exact .renewed
  | acquireLock client path mode =>
      obtain ⟨⟨chubby, reply⟩, handled, rfl⟩ := Option.map_eq_some_iff.mp taken
      rcases ChubbyImpl.acquireLock_cases handled with
        ⟨rfl, _⟩ | ⟨chosen, stored, puts, rfl⟩ | ⟨chosen, rfl⟩ | ⟨rfl, _⟩
      · exact .acquireAborted
      · exact .granted (acquireDecision_put chosen).2 puts
      · obtain ⟨_, asks, shared⟩ := acquireDecision_join chosen
        cases LockingMode.text_eq_shared.mp asks
        exact .joined shared
      · exact .refused
  | releaseLock client path =>
      obtain ⟨⟨chubby, reply⟩, handled, rfl⟩ := Option.map_eq_some_iff.mp taken
      rcases ChubbyImpl.releaseLock_cases handled with
        ⟨rfl, aborts, _⟩ | ⟨stored, _, locked, puts, rfl, _⟩ | ⟨rfl, unlocked, _⟩
      · exact .releaseAborted aborts
      · exact .freed locked puts
      · exact .notLocked unlocked
  | checkAndExpireLeases now order =>
      simp only [step, Option.ite_none_right_eq_some] at taken
      obtain ⟨_, taken⟩ := taken
      obtain ⟨chubby, handled, rfl⟩ := Option.map_eq_some_iff.mp taken
      unfold ChubbyImpl.checkAndExpireLeases at handled
      split at handled
      next expired => exact .expired expired handled
      · cases handled

end Timed

end Chubby.Lock
