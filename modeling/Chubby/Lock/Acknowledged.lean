/-
This file proves when an acknowledged lock operation has changed the leader's database.
-/

import Chubby.Lock.Operations
import Chubby.Paxos.StableStart

namespace Chubby.Lock

open Chubby.Library Chubby.Paxos

variable {n view : Nat}

/-- `Put` is `Start` on the stable leader. -/
instance : PaxosService (StableGroup n) where
  get g path := g.get path
  put g slot path mode := g.start slot (keyValue path mode)
  numServers := n
  view g := g.leader.view
  leaderElectionHappened g := g.leader.leaderElectionHappened

/-- The paths of the requests have no separator. -/
def Operation.PlainPath : Operation → Prop
  | .acquireLock _ path _ | .releaseLock _ path => '#' ∉ path.toList
  | _ => True

instance : (operation : Operation) → Decidable operation.PlainPath
  | .acquireLock _ _ _ | .releaseLock _ _ => inferInstanceAs (Decidable (_ ∉ _))
  | .keepAlive _ _ | .checkAndExpireLeases _ _ => isTrue trivial

/-- When the handler answers with success, the database has the requested value on return. -/
def TakesEffect (s : Timed (StableGroup n)) : Operation → Prop
  | .acquireLock client path mode => ∀ after response,
      s.chubby.acquireLock client path mode.text = some (after, .ok response) →
        response.success = true → after.found path = some mode.text
  | .releaseLock client path => ∀ after response,
      s.chubby.releaseLock client path = some (after, .ok response) →
        response.success = true → after.found path = some "FREE"
  | _ => True

/-- An acquire that puts its mode finds that the next slot takes a value, and a release of a locked path
that the current one does. -/
def SlotOpen (s : Timed (StableGroup n)) : Operation → Prop
  | .acquireLock client path mode =>
      acquireDecision (s.chubby.hasSession client) (s.chubby.found path) mode.text = .put →
        s.chubby.paxosService.Takes s.chubby.nextSlot.slotNumber
  | .releaseLock _ path => Locked (s.chubby.found path) → s.chubby.paxosService.Takes s.chubby.slotNumber
  | _ => True

instance (s : Timed (StableGroup n)) : (operation : Operation) → Decidable (SlotOpen s operation)
  | .acquireLock _ _ _ => inferInstanceAs (Decidable (_ = _ → StableGroup.Takes _ _))
  | .releaseLock _ _ => inferInstanceAs (Decidable (Locked _ → StableGroup.Takes _ _))
  | .keepAlive _ _ | .checkAndExpireLeases _ _ => isTrue trivial

/-- Every slot is decided or as new. -/
structure InStep (view : Nat) (s : ChubbyImpl (StableGroup n)) : Prop where
  stable : s.paxosService.Stable view
  regular : ∀ seq, s.paxosService.Regular view seq
  plain : ∀ path client, s.Holds path client → '#' ∉ path.toList

variable {s stored : ChubbyImpl (StableGroup n)} {path mode : String}

theorem InStep.nextSlot (inStep : InStep view s) : InStep view s.nextSlot :=
  ⟨inStep.stable, inStep.regular, inStep.plain⟩

theorem InStep.noElection (inStep : InStep view s) :
    PaxosService.leaderElectionHappened s.paxosService = false :=
  (inStep.stable.settled s.paxosService.me).noElection

/-- Every `Put` returns, and stores its pair exactly when its slot takes a value. -/
theorem InStep.put (inStep : InStep view s) (plain : '#' ∉ path.toList) (mode : String) :
    ∃ stored, s.put path mode = some stored ∧ InStep view stored ∧
      ¬ stored.paxosService.Takes stored.slotNumber ∧ ∀ query, stored.found query =
        if query = path ∧ s.paxosService.Takes s.slotNumber then some mode else s.found query := by
  obtain ⟨g, started, ends⟩ := inStep.stable.start_effect (inStep.regular s.slotNumber) plain mode
  refine ⟨{ s with paxosService := g }, congrArg (Option.map _) started, ?_, ends.spent, fun query => ?_⟩
  · exact ⟨ends.stable, fun seq => ends.regular seq (inStep.regular seq), inStep.plain⟩
  · show (g.servers g.me).paxosDb.get query = _
    rw [ends.me]
    exact ends.values s.paxosService.me query

theorem InStep.put_exact (inStep : InStep view s) (plain : '#' ∉ path.toList)
    (puts : s.put path mode = some stored) : InStep view stored ∧
      ¬ stored.paxosService.Takes stored.slotNumber ∧ ∀ query, stored.found query =
        if query = path ∧ s.paxosService.Takes s.slotNumber then some mode else s.found query := by
  obtain ⟨other, puts', exact_⟩ := inStep.put plain mode
  cases puts.symm.trans puts'
  exact exact_

theorem InStep.insertLock (inStep : InStep view s) (plain : '#' ∉ path.toList) (client : String) :
    InStep view (s.insertLock path client) :=
  { inStep with
    plain := fun query holder holds => by
      rcases ChubbyImpl.insertLock_holds.mp holds with ⟨rfl, _⟩ | early
      · exact plain
      · exact inStep.plain query holder early }

theorem InStep.eraseLock (inStep : InStep view s) (path client : String) :
    InStep view (s.eraseLock path client) :=
  { inStep with
    plain := fun query holder holds =>
      inStep.plain query holder (ChubbyImpl.eraseLock_holds.mp holds).2 }

theorem InStep.expireKey (inStep : InStep view s) {key client : String} (holds : s.Holds key client)
    {next : ChubbyImpl (StableGroup n)} (expires : s.expireKey key = some next) :
    InStep view next ∧ next.clientLockMap = s.clientLockMap := by
  unfold ChubbyImpl.expireKey at expires
  split at expires
  · obtain ⟨service, _, rfl⟩ := Option.map_eq_some_iff.mp expires
    exact ⟨(inStep.put_exact (inStep.plain key client holds) expires).1, rfl⟩
  · cases expires
    exact ⟨inStep, rfl⟩

theorem InStep.releaseLocksForClient (inStep : InStep view s) {client : String}
    {next : ChubbyImpl (StableGroup n)} (released : s.releaseLocksForClient client = some next) :
    InStep view next := by
  have both : InStep view next ∧ next.clientLockMap = s.clientLockMap := by
    refine @foldlM_invariant _ _ _ _ (fun state => InStep view state ∧ state.clientLockMap = s.clientLockMap)
      ?_ _ _ ⟨inStep, rfl⟩ released
    rintro state key member after ⟨holds, map⟩ expires
    have held : state.Holds key client := by
      unfold ChubbyImpl.Holds
      rw [map]
      exact ChubbyImpl.mem_lockedKeys.mp member
    obtain ⟨kept, map'⟩ := holds.expireKey held expires
    exact ⟨kept, map'.trans map⟩
  exact both.1

/-- Every operation on plain paths keeps the server in step. -/
theorem InStep.outcome (inStep : InStep view s) {next : ChubbyImpl (StableGroup n)} {operation : Operation}
    (plain : operation.PlainPath) (outcome : Outcome s operation next) : InStep view next := by
  cases outcome with
  | renewed => exact { inStep with }
  | acquireAborted => exact inStep
  | releaseAborted _ => exact inStep
  | notLocked _ => exact inStep
  | refused => exact inStep.nextSlot
  | joined _ => exact inStep.nextSlot.insertLock plain _
  | granted free puts => exact (inStep.nextSlot.put_exact plain puts).1.insertLock plain _
  | freed locked puts => exact (inStep.put_exact plain puts).1.eraseLock _ _
  | @expired _ order leases _ _ released =>
      have start : InStep view { s with clientLeaseMap := leases } := { inStep with }
      exact @foldlM_invariant _ _ _ _ (InStep view)
        (fun state client _ after holds released => holds.releaseLocksForClient released) _ _ start released

/-- An acquire that puts its mode is answered with success, whatever becomes of its `Put`. -/
theorem InStep.acquireLock_puts (inStep : InStep view s) {client : String}
    (chosen : acquireDecision (s.hasSession client) (s.found path) mode = .put)
    (puts : s.nextSlot.put path mode = some stored) : s.acquireLock client path mode =
      some (stored.insertLock path client, .ok ⟨true, "NO_ERROR", stored.currentLeader⟩) := by
  unfold ChubbyImpl.acquireLock
  rw [if_neg (by rw [inStep.noElection]; exact Bool.false_ne_true)]
  dsimp only
  rw [show acquireDecision (s.nextSlot.hasSession client) (s.nextSlot.found path) mode = .put from chosen]
  exact congrArg (Option.map _) puts

theorem InStep.releaseLock_puts (inStep : InStep view s) {client : String} (locked : Locked (s.found path))
    (puts : s.put path "FREE" = some stored) : s.releaseLock client path =
      some (stored.eraseLock path client, .ok ⟨true, "NO_ERROR", stored.currentLeader⟩) := by
  unfold ChubbyImpl.releaseLock
  rw [if_neg (by rw [inStep.noElection]; exact Bool.false_ne_true), releaseDecision_put.mpr locked]
  exact congrArg (Option.map _) puts

/-- An acknowledged operation takes effect exactly when its slot was open. -/
theorem takesEffect_iff {s : Timed (StableGroup n)} (inStep : InStep view s.chubby) {operation : Operation}
    (plain : operation.PlainPath) : TakesEffect s operation ↔ SlotOpen s operation := by
  cases operation with
  | keepAlive client now => exact Iff.rfl
  | checkAndExpireLeases now order => exact Iff.rfl
  | acquireLock client path mode =>
      constructor
      · intro effect chosen
        obtain ⟨stored, puts, _, _, found⟩ := inStep.nextSlot.put plain mode.text
        have kept := effect _ _ (inStep.acquireLock_puts chosen puts) rfl
        change stored.found path = some mode.text at kept
        rw [found] at kept
        by_contra dropped
        rw [if_neg fun both => dropped both.2] at kept
        have vacant := (acquireDecision_put chosen).2
        rw [show s.chubby.found path = some mode.text from kept] at vacant
        exact vacant.not_locked (locked_text mode)
      · intro opened after response handled success
        rcases ChubbyImpl.acquireLock_cases handled with
          ⟨_, reply⟩ | ⟨chosen, stored, puts, rfl⟩ | ⟨chosen, rfl⟩ | ⟨_, refusal, reply, refused⟩
        · cases reply
        · obtain ⟨_, _, found⟩ := inStep.nextSlot.put_exact plain puts
          exact (found path).trans (if_pos ⟨rfl, opened chosen⟩)
        · obtain ⟨_, asks, shared⟩ := acquireDecision_join chosen
          rw [asks]
          exact shared
        · cases reply
          rw [refused] at success
          cases success
  | releaseLock client path =>
      constructor
      · intro effect locked
        obtain ⟨stored, puts, _, _, found⟩ := inStep.put plain "FREE"
        have free := effect _ _ (inStep.releaseLock_puts locked puts) rfl
        change stored.found path = some "FREE" at free
        rw [found] at free
        by_contra dropped
        rw [if_neg fun both => dropped both.2] at free
        rw [free] at locked
        exact Vacant.not_locked (.inr rfl) locked
      · intro opened after response handled success
        rcases ChubbyImpl.releaseLock_cases handled with
          ⟨_, _, reply⟩ | ⟨stored, _, locked, puts, rfl, _⟩ | ⟨_, _, refusal, reply, refused⟩
        · cases reply
        · obtain ⟨_, _, found⟩ := inStep.put_exact plain puts
          exact (found path).trans (if_pos ⟨rfl, opened locked⟩)
        · cases reply
          rw [refused] at success
          cases success

theorem inStep_initial (m view : Nat) (slotNumber : Int) :
    InStep view (.initial (StableGroup.initial m view) slotNumber) where
  stable := StableGroup.stable_initial m view
  regular := StableGroup.regular_initial m view
  plain _ _ holds := absurd holds Std.TreeSet.not_mem_emptyc

/-- In every run of a stable leader, all acknowledged operations take effect exactly when every acquire
that puts its mode and every release of a locked path finds a slot that takes a value. -/
theorem acknowledged_iff {m view : Nat} {slotNumber : Int} {operations : List Operation}
    {s : Timed (StableGroup (m + 1))}
    (plain : ∀ operation ∈ operations, operation.PlainPath)
    (ran : run Timed.step (Timed.initial (StableGroup.initial m view) slotNumber) operations = some s) :
    EveryStep Timed.step (fun s operation _ => TakesEffect s operation)
        (Timed.initial (StableGroup.initial m view) slotNumber) operations ↔
      Guarded Timed.step SlotOpen (Timed.initial (StableGroup.initial m view) slotNumber) operations := by
  refine @everyStep_iff_guarded _ _ _ _ _ (fun s => InStep view s.chubby) Operation.PlainPath
    ?_ ?_ _ _ _ (inStep_initial m view slotNumber) plain ran
  · intro s operation next inStep plain _
    exact takesEffect_iff inStep plain
  · intro s operation next inStep plain _ taken
    exact inStep.outcome plain (Timed.step_outcome taken)

/-- A second client fails to take the path before the first one releases it. -/
def contendedRelease : List Operation :=
  [.keepAlive "1" 0, .keepAlive "2" 0, .acquireLock "1" "x" .exclusive, .acquireLock "2" "x" .exclusive,
    .releaseLock "1" "x"]

theorem acknowledged_iff_contendedRelease : ∃ s : Timed (StableGroup 3),
    run Timed.step (Timed.initial (StableGroup.initial 2 0) 0) contendedRelease = some s ∧
      s.chubby.found "x" = some "FREE" ∧
      EveryStep Timed.step (fun s operation _ => TakesEffect s operation)
        (Timed.initial (StableGroup.initial 2 0) 0) contendedRelease := by
  obtain ⟨s, ran, checked⟩ := (Option.any_eq_true _ _).mp (by decide :
    (run Timed.step (Timed.initial (StableGroup.initial 2 0) 0) contendedRelease).any (fun s =>
      decide (s.chubby.found "x" = some "FREE")) = true)
  have guarded : Guarded Timed.step SlotOpen (Timed.initial (StableGroup.initial 2 0) 0)
    contendedRelease := by decide
  exact ⟨s, ran, of_decide_eq_true checked, (acknowledged_iff (by decide) ran).mpr guarded⟩

/-- A client takes a path that nobody else asks for. -/
def soleAcquire : List Operation := [.keepAlive "1" 0, .acquireLock "1" "x" .exclusive]

/-- The release that follows is acknowledged, but its slot is the decided slot of the acquire. -/
theorem release_dropped : ∃ (s : Timed (StableGroup 3)) (after : ChubbyImpl (StableGroup 3))
    (response : LockResponse),
    run Timed.step (Timed.initial (StableGroup.initial 2 0) 0) soleAcquire = some s ∧
      s.chubby.releaseLock "1" "x" = some (after, .ok response) ∧ response.success = true ∧
      after.found "x" = some "EXCLUSIVE" := by
  obtain ⟨s, ran, checked⟩ := (Option.any_eq_true _ _).mp (by decide :
    (run Timed.step (Timed.initial (StableGroup.initial 2 0) 0) soleAcquire).any (fun s =>
      (s.chubby.releaseLock "1" "x").any fun handled =>
        handled.2.toOption.any fun response =>
          decide (response.success = true ∧ handled.1.found "x" = some "EXCLUSIVE")) = true)
  obtain ⟨⟨after, reply⟩, handled, checked⟩ := (Option.any_eq_true _ _).mp checked
  obtain ⟨response, answered, checked⟩ := (Option.any_eq_true _ _).mp checked
  obtain ⟨success, held⟩ := of_decide_eq_true checked
  cases reply with
  | error failure => cases answered
  | ok other =>
      cases answered
      exact ⟨s, after, response, ran, handled, success, held⟩

end Chubby.Lock
