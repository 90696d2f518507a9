/-
This file proves when the lock service over a stable group works like one over a single database.
-/

import Chubby.Library.Refinement
import Chubby.Lock.Acknowledged
import Chubby.Lock.LeaseRelease

namespace Chubby.Lock

open Chubby.Library Chubby.Paxos

/-- What a client reads in a reply, apart from the address of the leader. -/
inductive Answer where
  | renewed (response : KeepAliveResponse)
  | replied (reply : Except HandlerError (Bool × String))

def LockResponse.told (response : LockResponse) : Bool × String :=
  (response.success, response.errorMessage)

/-- The lease checker answers nobody. -/
def Timed.answer {σ : Type} [PaxosService σ] (s : Timed σ) : Operation → Option Answer
  | .keepAlive client now => some (.renewed (s.chubby.keepAlive client now).2)
  | .acquireLock client path mode =>
      (s.chubby.acquireLock client path mode.text).map fun handled => .replied (handled.2.map LockResponse.told)
  | .releaseLock client path =>
      (s.chubby.releaseLock client path).map fun handled => .replied (handled.2.map LockResponse.told)
  | .checkAndExpireLeases _ _ => none

section Alike

variable {σ τ : Type} [PaxosService σ] [PaxosService τ]

/-- Two servers keep the same locks, leases and slot number, and find the same values. -/
structure Alike (s : ChubbyImpl σ) (t : ChubbyImpl τ) : Prop where
  locks : s.clientLockMap = t.clientLockMap
  leases : s.clientLeaseMap = t.clientLeaseMap
  slotNumber : s.slotNumber = t.slotNumber
  found : ∀ path, s.found path = t.found path

/-- A pass first ends the leases. -/
def ChubbyImpl.endLeases (s : ChubbyImpl σ) (order : List String) : ChubbyImpl σ :=
  { s with clientLeaseMap := order.foldl (fun leases client => leases.erase client) s.clientLeaseMap }

/-- The paths that a pass finds locked among those of the expired clients. -/
def ChubbyImpl.expiringPaths (s : ChubbyImpl σ) (now : Nat) : List String :=
  ((s.expiredClients now).flatMap s.lockedKeys).filter fun path => Locked (s.found path)

/-- A `Put` touches nothing but the Paxos service. -/
theorem ChubbyImpl.put_kept {s stored : ChubbyImpl σ} {path mode : String}
    (puts : s.put path mode = some stored) : stored.clientLockMap = s.clientLockMap ∧
      stored.clientLeaseMap = s.clientLeaseMap ∧ stored.slotNumber = s.slotNumber := by
  obtain ⟨service, _, rfl⟩ := Option.map_eq_some_iff.mp puts
  exact ⟨rfl, rfl, rfl⟩

theorem ChubbyImpl.expireKey_kept {s next : ChubbyImpl σ} {key : String}
    (expires : s.expireKey key = some next) : next.clientLockMap = s.clientLockMap ∧
      next.clientLeaseMap = s.clientLeaseMap ∧ next.slotNumber = s.slotNumber := by
  unfold expireKey at expires
  split at expires
  · exact put_kept expires
  · cases expires
    exact ⟨rfl, rfl, rfl⟩

theorem ChubbyImpl.expireKeys_kept {s next : ChubbyImpl σ} {keys : List String}
    (expires : keys.foldlM expireKey s = some next) : next.clientLockMap = s.clientLockMap ∧
      next.clientLeaseMap = s.clientLeaseMap ∧ next.slotNumber = s.slotNumber := by
  refine @foldlM_invariant _ _ _ _ (fun state : ChubbyImpl σ => state.clientLockMap = s.clientLockMap ∧
    state.clientLeaseMap = s.clientLeaseMap ∧ state.slotNumber = s.slotNumber) ?_ _ _ ⟨rfl, rfl, rfl⟩ expires
  rintro state key _ after ⟨locks, leases, number⟩ expires
  obtain ⟨locks', leases', number'⟩ := expireKey_kept expires
  exact ⟨locks'.trans locks, leases'.trans leases, number'.trans number⟩

/-- The lock map stays as it is, so the loops over the clients and their keys are one loop. -/
theorem ChubbyImpl.foldlM_releaseLocks (s : ChubbyImpl σ) (order : List String) :
    order.foldlM releaseLocksForClient s = (order.flatMap s.lockedKeys).foldlM expireKey s := by
  have loops (map : LockMap) : ∀ s : ChubbyImpl σ, s.clientLockMap = map →
      order.foldlM releaseLocksForClient s =
        (order.flatMap fun client => (map.toList.filter fun pair => pair.2 = client).map Prod.fst).foldlM
          expireKey s := by
    induction order with
    | nil => exact fun _ _ => rfl
    | cons client rest ih =>
        intro s same
        rw [List.foldlM_cons, List.flatMap_cons, List.foldlM_append]
        subst same
        refine Option.bind_congr fun middle released => ih middle ?_
        exact (expireKeys_kept released).1
  exact loops s.clientLockMap s rfl

end Alike

section Group

variable {n view : Nat} {s : ChubbyImpl (StableGroup n)}

/-- Every `Put` finds a slot that takes a value: those of acquires and releases, and that of a pass, in which
only one path may be freed. -/
def PutsOpen (s : Timed (StableGroup n)) : Operation → Prop
  | .checkAndExpireLeases now _ => ∀ path ∈ s.chubby.expiringPaths now,
      s.chubby.paxosService.Takes s.chubby.slotNumber ∧
        ∀ other ∈ s.chubby.expiringPaths now, other = path
  | operation => SlotOpen s operation

instance (s : Timed (StableGroup n)) : (operation : Operation) → Decidable (PutsOpen s operation)
  | .checkAndExpireLeases now _ => inferInstanceAs (Decidable (∀ path ∈ s.chubby.expiringPaths now, _))
  | .keepAlive client now => inferInstanceAs (Decidable (SlotOpen s (.keepAlive client now)))
  | .acquireLock client path mode => inferInstanceAs (Decidable (SlotOpen s (.acquireLock client path mode)))
  | .releaseLock client path => inferInstanceAs (Decidable (SlotOpen s (.releaseLock client path)))

/-- A pass frees the first locked path of its keys, when the slot takes a value, and no other. -/
theorem InStep.expireKeys_exact (inStep : InStep view s) {keys : List String}
    (held : ∀ key ∈ keys, ∃ client, s.Holds key client) {next : ChubbyImpl (StableGroup n)}
    (expires : keys.foldlM ChubbyImpl.expireKey s = some next) :
    InStep view next ∧ ∀ query, next.found query =
      if s.paxosService.Takes s.slotNumber ∧
        (keys.find? fun key => Locked (s.found key)) = some query then some "FREE"
      else s.found query := by
  induction keys generalizing s with
  | nil =>
      cases expires
      exact ⟨inStep, fun query => (if_neg fun both => Option.some_ne_none _ both.2.symm).symm⟩
  | cons key rest ih =>
      rw [List.foldlM_cons] at expires
      obtain ⟨middle, first, later⟩ := Option.bind_eq_some_iff.mp expires
      have held' : ∀ key ∈ rest, ∃ client, middle.Holds key client := fun other member => by
        obtain ⟨client, holds⟩ := held other (List.mem_cons_of_mem _ member)
        refine ⟨client, ?_⟩
        unfold ChubbyImpl.Holds
        rw [(ChubbyImpl.expireKey_kept first).1]
        exact holds
      have both := first
      unfold ChubbyImpl.expireKey at both
      split at both
      next locked =>
        obtain ⟨client, holds⟩ := held key (List.mem_cons_self ..)
        obtain ⟨stepped, spent, found⟩ := inStep.put_exact (inStep.plain key client holds) both
        obtain ⟨kept, same⟩ := ih stepped held' later
        have front : ((key :: rest).find? fun key => Locked (s.found key)) = some key :=
          List.find?_cons_of_pos (decide_eq_true locked)
        refine ⟨kept, fun query => ?_⟩
        rw [same, if_neg fun takes => spent takes.1, found, front]
        simp only [Option.some.injEq, and_comm, eq_comm]
      next unlocked =>
        cases both
        obtain ⟨kept, same⟩ := ih inStep held' later
        refine ⟨kept, fun query => ?_⟩
        have skipped : ((key :: rest).find? fun key => Locked (s.found key)) =
            rest.find? fun key => Locked (s.found key) :=
          List.find?_cons_of_neg (by simpa using unlocked)
        rw [same, skipped]

end Group

theorem mem_of_find {Item : Type} {items : List Item} {property : Item → Prop} [DecidablePred property]
    {item : Item} (found : (items.find? fun item => property item) = some item) :
    item ∈ items ∧ property item := by
  have satisfied := List.find?_some found
  simp only [decide_eq_true_eq] at satisfied
  exact ⟨List.mem_of_find?_eq_some found, satisfied⟩

/-- At most one element satisfies a predicate when the first such element is every such element. -/
theorem find_eq_iff {Item : Type} {items : List Item} {property : Item → Prop} [DecidablePred property] :
    (∀ item ∈ items, property item → (items.find? fun item => property item) = some item) ↔
      ∀ item ∈ items, property item → ∀ other ∈ items, property other → other = item := by
  constructor
  · intro first item member holds other member' holds'
    exact Option.some.inj ((first other member' holds').symm.trans (first item member holds))
  · intro unique item member holds
    have some_ : (items.find? fun item => property item).isSome := by
      rw [List.find?_isSome]
      exact ⟨item, member, decide_eq_true holds⟩
    obtain ⟨other, found⟩ := Option.isSome_iff_exists.mp some_
    obtain ⟨member', holds'⟩ := mem_of_find found
    rw [found, unique item member holds other member' holds']

/-- A pass on the database frees all locked paths of its keys, and ends. -/
theorem expireKeys_ends (t : ChubbyImpl Database) (keys : List String) :
    ∃ after, keys.foldlM ChubbyImpl.expireKey t = some after ∧
      after.paxosService.view = t.paxosService.view := by
  induction keys generalizing t with
  | nil => exact ⟨t, rfl, rfl⟩
  | cons key rest ih =>
      obtain ⟨middle, first, view⟩ : ∃ middle, t.expireKey key = some middle ∧
          middle.paxosService.view = t.paxosService.view := by
        unfold ChubbyImpl.expireKey
        split <;> exact ⟨_, rfl, rfl⟩
      obtain ⟨after, later, view'⟩ := ih middle
      refine ⟨after, ?_, view'.trans view⟩
      rw [List.foldlM_cons, first]
      exact later

section Follow

variable {n view : Nat} {s next : ChubbyImpl (StableGroup n)} {t after : ChubbyImpl Database}

/-- A `Put` that finds its slot open keeps both servers alike. -/
theorem Alike.put (alike : Alike s t) {path mode : String} {stored : ChubbyImpl (StableGroup n)}
    (puts : s.put path mode = some stored)
    (found : ∀ query, stored.found query = if query = path then some mode else s.found query) :
    ∃ stored', t.put path mode = some stored' ∧ stored'.paxosService.view = t.paxosService.view ∧
      Alike stored stored' := by
  refine ⟨_, rfl, rfl, ?_⟩
  obtain ⟨locks, leases, number⟩ := ChubbyImpl.put_kept puts
  refine ⟨locks.trans alike.locks, leases.trans alike.leases, number.trans alike.slotNumber, fun query => ?_⟩
  rw [found, alike.found]
  exact (Function.update_apply _ _ _ _).symm

theorem Alike.insertLock (alike : Alike s t) (path client : String) :
    Alike (s.insertLock path client) (t.insertLock path client) :=
  { alike with locks := by rw [ChubbyImpl.insertLock, ChubbyImpl.insertLock, alike.locks] }

theorem Alike.eraseLock (alike : Alike s t) (path client : String) :
    Alike (s.eraseLock path client) (t.eraseLock path client) :=
  { alike with locks := by rw [ChubbyImpl.eraseLock, ChubbyImpl.eraseLock, alike.locks] }

theorem Alike.nextSlot (alike : Alike s t) : Alike s.nextSlot t.nextSlot :=
  { alike with slotNumber := by rw [ChubbyImpl.nextSlot, ChubbyImpl.nextSlot, alike.slotNumber] }

/-- After a pass both servers find the same values exactly when the group could free every path. -/
theorem Alike.expireKeys (alike : Alike s t) (inStep : InStep view s) {keys : List String}
    (held : ∀ key ∈ keys, ∃ client, s.Holds key client)
    (expires : keys.foldlM ChubbyImpl.expireKey s = some next)
    (expires' : keys.foldlM ChubbyImpl.expireKey t = some after) :
    Alike next after ↔ ∀ path ∈ keys, Locked (s.found path) →
      s.paxosService.Takes s.slotNumber ∧ (keys.find? fun key => Locked (s.found key)) = some path := by
  obtain ⟨_, found⟩ := inStep.expireKeys_exact held expires
  obtain ⟨_, found'⟩ := ChubbyImpl.expireKeys_database expires'
  obtain ⟨locks, leases, number⟩ := ChubbyImpl.expireKeys_kept expires
  obtain ⟨locks', leases', number'⟩ := ChubbyImpl.expireKeys_kept expires'
  have same : Alike next after ↔ ∀ path, next.found path = after.found path := by
    refine ⟨Alike.found, fun agrees => ⟨?_, ?_, ?_, agrees⟩⟩
    · rw [locks, locks', alike.locks]
    · rw [leases, leases', alike.leases]
    · rw [number, number', alike.slotNumber]
  rw [same]
  refine forall_congr' fun path => ?_
  rw [found, found', ← alike.found]
  by_cases pending : path ∈ keys ∧ Locked (s.found path)
  · rw [if_pos pending]
    refine Iff.trans ?_ ⟨fun freed _ _ => freed, fun freed => freed pending.1 pending.2⟩
    constructor
    · intro freed
      by_contra failed
      rw [if_neg failed] at freed
      exact Vacant.not_locked (.inr freed) pending.2
    · intro freed
      exact if_pos freed
  · rw [if_neg pending]
    exact iff_of_true (if_neg fun freed => pending (mem_of_find freed.2))
      fun member locked => absurd ⟨member, locked⟩ pending

/-- The group is in step, and the database server keeps what the group keeps. -/
structure Mirrors (view : Nat) (s : Timed (StableGroup n)) (d : Timed Database) : Prop where
  inStep : InStep view s.chubby
  epoch : d.chubby.paxosService.view = view
  clock : s.clock = d.clock
  alike : Alike s.chubby d.chubby

/-- Both give the client the same answer and are alike after it. -/
def Agree (s : Timed (StableGroup n)) (d : Timed Database) (operation : Operation)
    (next : Timed (StableGroup n)) (after : Timed Database) : Prop :=
  s.answer operation = d.answer operation ∧ next.clock = after.clock ∧ Alike next.chubby after.chubby

section Handlers

variable {s next : ChubbyImpl (StableGroup n)} {t : ChubbyImpl Database} {client path : String}
  {reply : Except HandlerError LockResponse}

theorem InStep.epoch (inStep : InStep view s) : PaxosService.view s.paxosService = view :=
  (inStep.stable.settled s.paxosService.me).view

/-- An acquire works as on the database exactly when the slot of its `Put` takes a value. -/
theorem Alike.acquireLock (alike : Alike s t) (inStep : InStep view s) (plain : '#' ∉ path.toList)
    {mode : LockingMode} (handled : s.acquireLock client path mode.text = some (next, reply)) :
    ∃ after reply', t.acquireLock client path mode.text = some (after, reply') ∧
      reply.map LockResponse.told = reply'.map LockResponse.told ∧
      after.paxosService.view = t.paxosService.view ∧
      (Alike next after ↔ (acquireDecision (s.hasSession client) (s.found path) mode.text = .put →
        s.paxosService.Takes s.nextSlot.slotNumber)) := by
  have moved := alike.nextSlot
  have session : s.nextSlot.hasSession client = t.nextSlot.hasSession client := by
    unfold ChubbyImpl.hasSession
    rw [moved.leases]
  unfold ChubbyImpl.acquireLock at handled ⊢
  rw [if_neg (by rw [inStep.noElection]; exact Bool.false_ne_true)] at handled
  rw [if_neg (show ¬ PaxosService.leaderElectionHappened t.paxosService = true from Bool.false_ne_true)]
  dsimp only at handled ⊢
  rw [← session, ← moved.found]
  change ∃ after reply', _ ∧ _ ∧ _ ∧ (_ ↔
    (acquireDecision (s.nextSlot.hasSession client) (s.nextSlot.found path) mode.text = .put → _))
  cases chosen : acquireDecision (s.nextSlot.hasSession client) (s.nextSlot.found path) mode.text with
  | put =>
      rw [chosen] at handled
      obtain ⟨stored, puts, same⟩ := Option.map_eq_some_iff.mp handled
      cases same
      obtain ⟨_, _, found⟩ := inStep.nextSlot.put_exact plain puts
      refine ⟨_, _, rfl, rfl, rfl, ?_⟩
      constructor
      · intro after _
        have taken : stored.found path = some mode.text := (after.found path).trans (Function.update_self _ _ _)
        rw [found] at taken
        by_contra dropped
        rw [if_neg fun both => dropped both.2] at taken
        have vacant := (acquireDecision_put chosen).2
        rw [taken] at vacant
        exact vacant.not_locked (locked_text mode)
      · intro takes
        have open_ : s.nextSlot.paxosService.Takes s.nextSlot.slotNumber := takes rfl
        obtain ⟨after, puts', _, same⟩ := moved.put puts (fun query => by
          rw [found]
          simp only [open_, and_true])
        cases puts'
        exact same.insertLock path client
  | join =>
      rw [chosen] at handled
      cases handled
      exact ⟨_, _, rfl, rfl, rfl, iff_of_true (moved.insertLock path client) nofun⟩
  | refuse message =>
      rw [chosen] at handled
      cases handled
      exact ⟨_, _, rfl, rfl, rfl, iff_of_true moved nofun⟩
  | unanswered =>
      rw [chosen] at handled
      cases handled
      exact ⟨_, _, rfl, rfl, rfl, iff_of_true moved nofun⟩

/-- A release of a locked path works as on the database exactly when its slot takes a value. -/
theorem Alike.releaseLock (alike : Alike s t) (inStep : InStep view s) (plain : '#' ∉ path.toList)
    (handled : s.releaseLock client path = some (next, reply)) :
    ∃ after reply', t.releaseLock client path = some (after, reply') ∧
      reply.map LockResponse.told = reply'.map LockResponse.told ∧
      after.paxosService.view = t.paxosService.view ∧
      (Alike next after ↔ (Locked (s.found path) → s.paxosService.Takes s.slotNumber)) := by
  unfold ChubbyImpl.releaseLock at handled ⊢
  rw [if_neg (by rw [inStep.noElection]; exact Bool.false_ne_true)] at handled
  rw [if_neg (show ¬ PaxosService.leaderElectionHappened t.paxosService = true from Bool.false_ne_true)]
  have unlocked (chosen : releaseDecision (s.found path) ≠ .put) : ¬ Locked (s.found path) :=
    fun locked => chosen (releaseDecision_put.mpr locked)
  rw [← alike.found]
  cases chosen : releaseDecision (s.found path) with
  | put =>
      rw [chosen] at handled
      obtain ⟨stored, puts, same⟩ := Option.map_eq_some_iff.mp handled
      cases same
      have locked := releaseDecision_put.mp chosen
      obtain ⟨_, _, found⟩ := inStep.put_exact plain puts
      refine ⟨_, _, rfl, rfl, rfl, ?_⟩
      constructor
      · intro after _
        have free : stored.found path = some "FREE" := (after.found path).trans (Function.update_self _ _ _)
        rw [found] at free
        by_contra dropped
        rw [if_neg fun both => dropped both.2] at free
        exact Vacant.not_locked (.inr free) locked
      · intro takes
        have open_ := takes locked
        obtain ⟨after, puts', _, same⟩ := alike.put puts (fun query => by
          rw [found]
          simp only [open_, and_true])
        cases puts'
        exact same.eraseLock path client
  | refuse message =>
      rw [chosen] at handled
      cases handled
      exact ⟨_, _, rfl, rfl, rfl, iff_of_true alike fun locked =>
        absurd locked (unlocked (by rw [chosen]; exact Decision.noConfusion))⟩
  | join => exact absurd chosen releaseDecision_ne_join
  | unanswered =>
      rw [chosen] at handled
      cases handled
      exact ⟨_, _, rfl, rfl, rfl, iff_of_true alike fun locked =>
        absurd locked (unlocked (by rw [chosen]; exact Decision.noConfusion))⟩

end Handlers

theorem mem_expiringPaths {σ : Type} [PaxosService σ] {s : ChubbyImpl σ} {now : Nat} {order : List String}
    (expired : order.Perm (s.expiredClients now)) {path : String} :
    path ∈ s.expiringPaths now ↔ path ∈ order.flatMap s.lockedKeys ∧ Locked (s.found path) := by
  unfold ChubbyImpl.expiringPaths
  rw [List.mem_filter, decide_eq_true_iff, (expired.flatMap_right s.lockedKeys).mem_iff]

/-- A pass works as on the database exactly when it meets the guard. -/
theorem Alike.checkAndExpireLeases {s next : ChubbyImpl (StableGroup n)} {t : ChubbyImpl Database}
    {now clock : Nat} {order : List String} (alike : Alike s t) (inStep : InStep view s)
    (handled : s.checkAndExpireLeases now order = some next) :
    ∃ after, t.checkAndExpireLeases now order = some after ∧
      after.paxosService.view = t.paxosService.view ∧
      (Alike next after ↔ PutsOpen ⟨s, clock⟩ (.checkAndExpireLeases now order)) := by
  unfold ChubbyImpl.checkAndExpireLeases at handled ⊢
  split at handled
  next expired =>
    have expired' : order.Perm (t.expiredClients now) := by
      unfold ChubbyImpl.expiredClients
      rw [← alike.leases]
      exact expired
    rw [if_pos expired']
    have same : Alike (s.endLeases order) (t.endLeases order) :=
      ⟨alike.locks, by rw [ChubbyImpl.endLeases, ChubbyImpl.endLeases, alike.leases], alike.slotNumber,
        alike.found⟩
    have start : InStep view (s.endLeases order) := { inStep with }
    have keys : order.flatMap (t.endLeases order).lockedKeys = order.flatMap s.lockedKeys := by
      unfold ChubbyImpl.lockedKeys
      rw [← same.locks]
      rfl
    have held : ∀ key ∈ order.flatMap s.lockedKeys, ∃ client, s.Holds key client := by
      intro key member
      obtain ⟨client, _, member⟩ := List.mem_flatMap.mp member
      exact ⟨client, ChubbyImpl.mem_lockedKeys.mp member⟩
    obtain ⟨after, freed, epoch⟩ := expireKeys_ends (t.endLeases order) (order.flatMap s.lockedKeys)
    have released := handled
    rw [ChubbyImpl.foldlM_releaseLocks] at released
    refine ⟨after, ?_, epoch, ?_⟩
    · apply (ChubbyImpl.foldlM_releaseLocks (t.endLeases order) order).trans
      rw [keys]
      exact freed
    rw [same.expireKeys start held released freed]
    have first := @find_eq_iff _ (order.flatMap s.lockedKeys) (fun path => Locked (s.found path)) _
    constructor
    · intro freed path pending
      obtain ⟨member, locked⟩ := (mem_expiringPaths expired).mp pending
      refine ⟨(freed path member locked).1, fun other pending' => ?_⟩
      obtain ⟨member', locked'⟩ := (mem_expiringPaths expired).mp pending'
      exact first.mp (fun path member locked => (freed path member locked).2) path member locked
        other member' locked'
    · intro allowed path member locked
      have here := allowed path ((mem_expiringPaths expired).mpr ⟨member, locked⟩)
      refine ⟨here.1, first.mpr (fun path member locked other member' locked' => ?_) path member locked⟩
      exact (allowed path ((mem_expiringPaths expired).mpr ⟨member, locked⟩)).2 other
        ((mem_expiringPaths expired).mpr ⟨member', locked'⟩)
  · cases handled

/-- The database server follows every operation of the group, and agrees exactly under the guard. -/
theorem Mirrors.follows {s next : Timed (StableGroup n)} {d : Timed Database} {operation : Operation}
    (mirrors : Mirrors view s d) (plain : operation.PlainPath) (taken : s.step operation = some next) :
    ∃ after, d.step operation = some after ∧ (Agree s d operation next after ↔ PutsOpen s operation) ∧
      (PutsOpen s operation → Mirrors view next after) := by
  obtain ⟨inStep, epoch, clock, alike⟩ := mirrors
  have kept : InStep view next.chubby := inStep.outcome plain (Timed.step_outcome taken)
  cases operation with
  | keepAlive client now =>
      have leases : s.chubby.leaseOf client = d.chubby.leaseOf client := by
        unfold ChubbyImpl.leaseOf
        rw [alike.leases]
      have renewed : Alike (s.chubby.keepAlive client now).1 (d.chubby.keepAlive client now).1 :=
        ⟨alike.locks, by rw [ChubbyImpl.keepAlive, ChubbyImpl.keepAlive, alike.leases], alike.slotNumber,
          alike.found⟩
      have answer : s.answer (.keepAlive client now) = d.answer (.keepAlive client now) := by
        have same : PaxosService.view s.chubby.paxosService = PaxosService.view d.chubby.paxosService :=
          inStep.epoch.trans epoch.symm
        simp only [Timed.answer, ChubbyImpl.keepAlive, same]
      simp only [Timed.step, Option.ite_none_right_eq_some, Option.some.injEq] at taken ⊢
      obtain ⟨ready, rfl⟩ := taken
      refine ⟨_, ⟨?_, rfl⟩, iff_of_true ⟨answer, rfl, renewed⟩ trivial, fun _ => ⟨kept, epoch, rfl, renewed⟩⟩
      unfold ChubbyImpl.keepAliveWakes at ready ⊢
      rwa [← clock, ← leases]
  | acquireLock client path mode =>
      obtain ⟨⟨chubby, reply⟩, handled, rfl⟩ := Option.map_eq_some_iff.mp taken
      obtain ⟨after, reply', handled', told, epoch', same⟩ := alike.acquireLock inStep plain handled
      have answer : s.answer (.acquireLock client path mode) = d.answer (.acquireLock client path mode) := by
        simp only [Timed.answer, handled, handled', Option.map_some, told]
      refine ⟨⟨after, d.clock⟩, congrArg (Option.map _) handled', ?_, ?_⟩
      · exact ⟨fun agrees => same.mp agrees.2.2, fun allowed => ⟨answer, clock, same.mpr allowed⟩⟩
      · exact fun allowed => ⟨kept, epoch'.trans epoch, clock, same.mpr allowed⟩
  | releaseLock client path =>
      obtain ⟨⟨chubby, reply⟩, handled, rfl⟩ := Option.map_eq_some_iff.mp taken
      obtain ⟨after, reply', handled', told, epoch', same⟩ := alike.releaseLock inStep plain handled
      have answer : s.answer (.releaseLock client path) = d.answer (.releaseLock client path) := by
        simp only [Timed.answer, handled, handled', Option.map_some, told]
      refine ⟨⟨after, d.clock⟩, congrArg (Option.map _) handled', ?_, ?_⟩
      · exact ⟨fun agrees => same.mp agrees.2.2, fun allowed => ⟨answer, clock, same.mpr allowed⟩⟩
      · exact fun allowed => ⟨kept, epoch'.trans epoch, clock, same.mpr allowed⟩
  | checkAndExpireLeases now order =>
      simp only [Timed.step, Option.ite_none_right_eq_some] at taken ⊢
      obtain ⟨later, taken⟩ := taken
      obtain ⟨chubby, handled, rfl⟩ := Option.map_eq_some_iff.mp taken
      obtain ⟨after, handled', epoch', same⟩ := alike.checkAndExpireLeases inStep handled
      refine ⟨⟨after, now⟩, ⟨clock ▸ later, congrArg (Option.map _) handled'⟩, ?_, ?_⟩
      · exact ⟨fun agrees => same.mp agrees.2.2, fun allowed => ⟨rfl, rfl, same.mpr allowed⟩⟩
      · exact fun allowed => ⟨kept, epoch'.trans epoch, rfl, same.mpr allowed⟩

theorem mirrors_initial (m view : Nat) (slotNumber : Int) :
    Mirrors view (Timed.initial (StableGroup.initial m view) slotNumber)
      (Timed.initial ⟨fun _ => none, view⟩ slotNumber) where
  inStep := inStep_initial m view slotNumber
  epoch := rfl
  clock := rfl
  alike := ⟨rfl, rfl, rfl, fun _ => rfl⟩

/-- In every run, the lock service over a stable group gives the answers and keeps the locks of the one
over a single database exactly as long as every `Put` finds a slot that takes a value. -/
theorem replicated_iff {m view : Nat} {slotNumber : Int} {operations : List Operation}
    {s : Timed (StableGroup (m + 1))} (plain : ∀ operation ∈ operations, operation.PlainPath)
    (ran : run Timed.step (Timed.initial (StableGroup.initial m view) slotNumber) operations = some s) :
    Lockstep Timed.step Timed.step Agree (Timed.initial (StableGroup.initial m view) slotNumber)
        (Timed.initial ⟨fun _ => none, view⟩ slotNumber) operations ↔
      Guarded Timed.step PutsOpen (Timed.initial (StableGroup.initial m view) slotNumber) operations := by
  refine lockstep_iff_guarded ?_ (mirrors_initial m view slotNumber) plain ran
  intro s d operation next mirrors plain taken
  exact mirrors.follows plain taken

/-- The lease of a client ends after another client has asked for its path. -/
def contendedExpiry : List Operation :=
  [.keepAlive "1" 0, .acquireLock "1" "x" .exclusive, .keepAlive "2" 5, .acquireLock "2" "x" .shared,
    .checkAndExpireLeases 12000 ["1"], .acquireLock "2" "x" .shared]

theorem replicated_iff_contendedExpiry :
    Lockstep Timed.step Timed.step Agree (Timed.initial (StableGroup.initial 2 0) 0)
      (Timed.initial ⟨fun _ => none, (0 : Nat)⟩ 0) contendedExpiry := by
  obtain ⟨s, ran, _⟩ := (Option.any_eq_true _ _).mp (by decide :
    (run Timed.step (Timed.initial (StableGroup.initial 2 0) 0) contendedExpiry).any
      (fun _ => true) = true)
  have guarded : Guarded Timed.step PutsOpen (Timed.initial (StableGroup.initial 2 0) 0)
    contendedExpiry := by decide
  exact (replicated_iff (by decide) ran).mpr guarded

end Follow

end Chubby.Lock
