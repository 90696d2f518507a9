/-
This file proves when a successful KeepAlive means that the client still holds its locks.
-/

import Chubby.Client.Session

namespace Chubby.Client

open Chubby.Library Chubby.Lock

/-- The path of a granted AcquireLock whose reply the client still waits for. -/
def Rpc.granted : Rpc → Option String
  | ⟨.acquireLock path _, .answered (.ok response), true⟩ => if response.success then some path else none
  | _ => none

namespace Session

/-- The server still has every path that the client holds. -/
def Kept (s : Session) : Prop :=
  ∀ path ∈ s.locked, s.server.Holds path s.clientId ∧
    ∃ value, s.server.found path = some value ∧ value ≠ "FREE"

/-- The client holds the path, or the reply that grants it is on its way. -/
def Claimed (s : Session) (path : String) : Prop :=
  path ∈ s.locked ∨ ∃ rpc ∈ s.rpcs, rpc.granted = some path

instance (s : Session) (path : String) : Decidable (s.Claimed path) :=
  inferInstanceAs (Decidable (_ ∨ _))

def ClaimsNothing (s : Session) : Prop := s.locked = [] ∧ ∀ rpc ∈ s.rpcs, rpc.granted = none

instance (s : Session) : Decidable s.ClaimsNothing := inferInstanceAs (Decidable (_ ∧ _))

theorem ClaimsNothing.not_claimed {s : Session} (nothing : s.ClaimsNothing) (path : String) :
    ¬ s.Claimed path := by
  rintro (member | ⟨rpc, member, granted⟩)
  · rw [nothing.1] at member
    cases member
  · rw [nothing.2 rpc member] at granted
    cases granted

/-- The lease checker has not finished its last pass. -/
def Expiring (s : Session) : Prop := s.expiring ≠ [] ∨ s.keys ≠ []

instance (s : Session) : Decidable s.Expiring := inferInstanceAs (Decidable (_ ∨ _))

/-- The server would answer an AcquireLock with success. -/
def Grants (s : Session) (path mode : String) : Prop :=
  acquireDecision (s.server.hasSession s.clientId) (s.server.found path) mode = .put ∨
    acquireDecision (s.server.hasSession s.clientId) (s.server.found path) mode = .join

instance (s : Session) (path mode : String) : Decidable (s.Grants path mode) :=
  inferInstanceAs (Decidable (_ ∨ _))

/-- A call does not disturb the claims when its handler grants nothing while the checker is at work
and releases no claimed path. -/
def Undisturbed (s : Session) : Request → Prop
  | .acquireLock path mode => s.Expiring → ¬ s.Grants path mode
  | .releaseLock path => ¬ s.Claimed path
  | .keepAlive => True

instance (s : Session) : DecidablePred s.Undisturbed
  | .acquireLock path mode => inferInstanceAs (Decidable (s.Expiring → ¬ s.Grants path mode))
  | .releaseLock path => inferInstanceAs (Decidable (¬ s.Claimed path))
  | .keepAlive => .isTrue trivial

/-- The lease does not run out under a claim, the calls do not disturb the claims when they are
handled, and nobody asks for the mode `FREE`. -/
def Steady (s : Session) : SessionLabel → Prop
  | .chubbyLock _ mode => mode ≠ "FREE"
  | .checkLeases _ => s.server.expiredClients s.clock ≠ [] → s.ClaimsNothing
  | .deliver k => ∀ rpc ∈ s.rpcs[k]?, s.Undisturbed rpc.request
  | _ => True

instance (s : Session) : DecidablePred s.Steady
  | .chubbyLock _ mode => inferInstanceAs (Decidable (mode ≠ "FREE"))
  | .checkLeases _ => inferInstanceAs (Decidable (s.server.expiredClients s.clock ≠ [] → s.ClaimsNothing))
  | .deliver k => inferInstanceAs (Decidable (∀ rpc ∈ s.rpcs[k]?, s.Undisturbed rpc.request))
  | .tick _ | .newView _ | .sendKeepAlive | .keeperTests _ | .keeperReturns | .keeperFails | .keeperWakes
  | .chubbyUnlock _ | .returns _ | .fails _ _ | .wake _ | .expireNext | .freeKey => .isTrue trivial

/-- Every claim of the client is in the lock map and in the database. -/
structure Steadfast (s : Session) : Prop where
  kept : ∀ path, s.Claimed path → s.server.Holds path s.clientId ∧
    ∃ value, s.server.found path = some value ∧ value ≠ "FREE"
  expiring : s.Expiring → ∀ path, ¬ s.Claimed path
  modes : ∀ rpc ∈ s.rpcs, ∀ path mode, rpc.request = .acquireLock path mode → mode ≠ "FREE"

/-- A step of this kind leaves the server's locks alone and adds no claim. -/
structure Calm (s next : Session) : Prop where
  clientId : next.clientId = s.clientId
  found : ∀ path, next.server.found path = s.server.found path
  locks : next.server.clientLockMap = s.server.clientLockMap
  expiring : next.expiring = s.expiring
  keys : next.keys = s.keys
  claims : ∀ path, next.Claimed path → s.Claimed path
  requests : ∀ rpc ∈ next.rpcs, (∃ early ∈ s.rpcs, early.request = rpc.request) ∨
    ∀ path mode, rpc.request = .acquireLock path mode → mode ≠ "FREE"

theorem Steadfast.calm {s next : Session} (steadfast : s.Steadfast) (calm : Calm s next) :
    next.Steadfast where
  kept path claimed := by
    rw [calm.found, calm.clientId]
    unfold ChubbyImpl.Holds
    rw [calm.locks]
    exact steadfast.kept path (calm.claims path claimed)
  expiring expires path claimed := by
    unfold Expiring at expires
    rw [calm.expiring, calm.keys] at expires
    exact steadfast.expiring expires path (calm.claims path claimed)
  modes rpc member path mode asks := by
    rcases calm.requests rpc member with ⟨early, found, same⟩ | known
    · exact steadfast.modes early found path mode (same.trans asks)
    · exact known path mode asks

section Calls

variable {s : Session} {k : Nat} {old new : Rpc}

/-- Replacing a call by one that grants nothing adds no claim. -/
theorem granted_set {path : String} (none_ : new.granted = none)
    (claims : ∃ rpc ∈ s.rpcs.set k new, rpc.granted = some path) :
    ∃ rpc ∈ s.rpcs, rpc.granted = some path := by
  obtain ⟨rpc, member, granted⟩ := claims
  rcases List.mem_or_eq_of_mem_set member with member | rfl
  · exact ⟨rpc, member, granted⟩
  · rw [none_] at granted
    cases granted

theorem requests_set {rpc : Rpc} (at_ : s.rpcs[k]? = some old) (member : rpc ∈ s.rpcs.set k new)
    (same : new.request = old.request) : ∃ early ∈ s.rpcs, early.request = rpc.request := by
  rcases List.mem_or_eq_of_mem_set member with member | rfl
  · exact ⟨rpc, member, rfl⟩
  · exact ⟨old, List.mem_of_getElem? at_, same.symm⟩

theorem granted_ended (rpc : Rpc) : ({ rpc with awaited := false } : Rpc).granted = none := by
  unfold Rpc.granted
  split
  next same => cases congrArg Rpc.awaited same
  · rfl

/-- Ending a call or moving it to a stage without a grant is calm. -/
theorem calm_set {next : Session} (at_ : s.rpcs[k]? = some old) (rpcs : next.rpcs = s.rpcs.set k new)
    (none_ : new.granted = none) (same : new.request = old.request) (clientId : next.clientId = s.clientId)
    (found : ∀ path, next.server.found path = s.server.found path)
    (locks : next.server.clientLockMap = s.server.clientLockMap)
    (expiring : next.expiring = s.expiring) (keys : next.keys = s.keys)
    (locked : ∀ path ∈ next.locked, s.Claimed path) : Calm s next where
  clientId := clientId
  found := found
  locks := locks
  expiring := expiring
  keys := keys
  claims path claimed := by
    rcases claimed with member | claims
    · exact locked path member
    · rw [rpcs] at claims
      exact .inr (granted_set none_ claims)
  requests rpc member := by
    rw [rpcs] at member
    exact .inl (requests_set at_ member same)

/-- Steps that only touch the client's own state are calm. -/
theorem calm_same {next : Session} (rpcs : next.rpcs = s.rpcs) (clientId : next.clientId = s.clientId)
    (found : ∀ path, next.server.found path = s.server.found path)
    (locks : next.server.clientLockMap = s.server.clientLockMap)
    (expiring : next.expiring = s.expiring) (keys : next.keys = s.keys)
    (locked : ∀ path ∈ next.locked, path ∈ s.locked) : Calm s next where
  clientId := clientId
  found := found
  locks := locks
  expiring := expiring
  keys := keys
  claims path claimed := by
    unfold Claimed at claimed
    rw [rpcs] at claimed
    exact claimed.imp_left (locked path)
  requests rpc member := .inl ⟨rpc, rpcs ▸ member, rfl⟩

/-- The clock, the lease and the thread of `send_keep_alive` make no claims. -/
theorem calm_own {clock : Nat} {client : ClientLib} {keeper : Keeper} {lastCode : Option Int} :
    Calm s { s with clock, client, keeper, lastCode } :=
  calm_same rfl rfl (fun _ => rfl) rfl rfl rfl fun _ => id

/-- Sending a request that does not ask for the mode `FREE` is calm. -/
theorem calm_send {next : Session} {request : Request} (rpcs : next.rpcs = (s.send request).rpcs)
    (asks : ∀ path mode, request = .acquireLock path mode → mode ≠ "FREE")
    (clientId : next.clientId = s.clientId) (server : next.server = s.server)
    (expiring : next.expiring = s.expiring) (keys : next.keys = s.keys)
    (locked : ∀ path ∈ next.locked, path ∈ s.locked) : Calm s next where
  clientId := clientId
  found := by simp only [server, implies_true]
  locks := by rw [server]
  expiring := expiring
  keys := keys
  claims path claimed := by
    rcases claimed with member | ⟨rpc, member, granted⟩
    · exact .inl (locked path member)
    · rw [rpcs] at member
      rcases List.mem_append.mp member with member | member
      · exact .inr ⟨rpc, member, granted⟩
      · cases List.mem_singleton.mp member
        cases request <;> cases granted
  requests rpc member := by
    rw [rpcs] at member
    rcases List.mem_append.mp member with member | member
    · exact .inl ⟨rpc, member, rfl⟩
    · cases List.mem_singleton.mp member
      exact .inr asks

end Calls

variable {s next : Session}

theorem keeperTests_calm {emptyServer : Bool} (taken : s.keeperTests emptyServer = some next) :
    Calm s next := by
  have asks : ∀ path mode, Request.keepAlive = .acquireLock path mode → mode ≠ "FREE" := by
    rintro _ _ ⟨⟩
  unfold keeperTests at taken
  split at taken
  · split at taken <;> cases taken
    · exact calm_send rfl asks rfl rfl rfl rfl fun _ => id
    · exact calm_own
  · split at taken
    · split at taken <;> cases taken
      · exact calm_own
      · exact calm_send rfl asks rfl rfl rfl rfl fun _ => id
    · cases taken
      exact calm_own
  · cases taken

theorem keeperReturns_calm (taken : s.keeperReturns = some next) : Calm s next := by
  unfold keeperReturns at taken
  split at taken
  next grace currentTime k calls =>
    split at taken
    next request response at_ =>
      have ended {after : Session} (rpcs : after.rpcs = s.rpcs.set k ⟨request, .renewed response, false⟩)
          (clientId : after.clientId = s.clientId) (server : after.server = s.server)
          (expiring : after.expiring = s.expiring) (keys : after.keys = s.keys)
          (locked : after.locked = s.locked) : Calm s after := by
        refine calm_set at_ rpcs ?_ ?_ clientId (by simp [server]) (by rw [server]) expiring keys ?_
        · exact granted_ended ⟨request, .renewed response, true⟩
        · rfl
        · intro path member
          rw [locked] at member
          exact .inl member
      dsimp only at taken
      split at taken
      · split at taken <;> cases taken <;> exact ended rfl rfl rfl rfl rfl rfl
      · split at taken <;> cases taken <;> exact ended rfl rfl rfl rfl rfl rfl
    · cases taken
  · cases taken

theorem keeperFails_calm (taken : s.keeperFails = some next) : Calm s next := by
  unfold keeperFails at taken
  split at taken
  next grace currentTime k calls =>
    obtain ⟨rpc, at_, rfl⟩ := Option.map_eq_some_iff.mp taken
    refine calm_set at_ rfl (granted_ended rpc) rfl rfl (fun _ => rfl) rfl rfl rfl ?_
    exact fun path member => .inl member
  · cases taken

/-- A call that ends adds only the path that its reply grants. -/
theorem finishCall_calm {k : Nat} {rpc : Rpc}
    {outcome : Except Failure (Except Paxos.HandlerError LockResponse)}
    (at_ : s.rpcs[k]? = some rpc)
    (grants : ∀ path mode, rpc.request = .acquireLock path mode → lockCode outcome = 0 →
      rpc.granted = some path)
    (taken : s.finishCall k rpc outcome = some next) : Calm s next := by
  unfold finishCall at taken
  split at taken
  next path mode request =>
    cases taken
    refine calm_set at_ rfl (granted_ended rpc) rfl rfl (fun _ => rfl) rfl rfl rfl fun query member => ?_
    dsimp only at member
    split at member
    next success =>
      rcases List.mem_cons.mp member with rfl | early
      · exact .inr ⟨rpc, List.mem_of_getElem? at_, grants query mode request success⟩
      · exact .inl early
    · exact .inl member
  · cases taken
    refine calm_set at_ rfl (granted_ended rpc) rfl rfl (fun _ => rfl) rfl rfl rfl ?_
    exact fun path member => .inl member
  · cases taken

theorem lockCode_zero {reply : Except Paxos.HandlerError LockResponse} (success : lockCode (.ok reply) = 0) :
    ∃ response, reply = .ok response ∧ response.success = true := by
  cases reply with
  | ok response =>
      refine ⟨response, rfl, ?_⟩
      by_contra refused
      have code : lockCode (.ok (.ok response)) = -1 := if_neg refused
      rw [code] at success
      cases success
  | error failure => cases failure <;> cases success

theorem returns_calm {k : Nat} (taken : s.returns k = some next) : Calm s next := by
  unfold returns at taken
  split at taken
  next request reply at_ =>
    refine finishCall_calm at_ ?_ taken
    rintro path mode rfl success
    obtain ⟨response, rfl, granted⟩ := lockCode_zero success
    exact if_pos granted
  · cases taken

theorem fails_calm {k : Nat} {failure : Failure} (taken : s.fails k failure = some next) : Calm s next := by
  unfold fails at taken
  split at taken
  next request stage at_ =>
    refine finishCall_calm at_ ?_ taken
    intro path mode _ success
    cases failure <;> cases success
  · cases taken

theorem call_calm {request : Request} (asks : ∀ path mode, request = .acquireLock path mode → mode ≠ "FREE") :
    Calm s (s.call request) := by
  unfold call
  split
  · exact calm_own
  · exact calm_send rfl asks rfl rfl rfl rfl fun _ => id

theorem Calm.trans {first second third : Session} (one : Calm first second) (two : Calm second third) :
    Calm first third where
  clientId := two.clientId.trans one.clientId
  found path := (two.found path).trans (one.found path)
  locks := two.locks.trans one.locks
  expiring := two.expiring.trans one.expiring
  keys := two.keys.trans one.keys
  claims path claimed := one.claims path (two.claims path claimed)
  requests rpc member := by
    rcases two.requests rpc member with ⟨early, found, same⟩ | known
    · rcases one.requests early found with ⟨first, found, same'⟩ | known
      · exact .inl ⟨first, found, same'.trans same⟩
      · exact .inr fun path mode asks => known path mode (same.trans asks)
    · exact .inr known

theorem chubbyUnlock_calm {path : String} : Calm s (s.chubbyUnlock path) := by
  have given : Calm s { s with locked := s.locked.filter (· ≠ path) } :=
    calm_same rfl rfl (fun _ => rfl) rfl rfl rfl fun _ member => (List.mem_filter.mp member).1
  exact given.trans (call_calm (by rintro _ _ ⟨⟩))

theorem wake_calm {k : Nat} (taken : s.wake k = some next) : Calm s next := by
  unfold wake at taken
  split at taken
  next request deadline awaited at_ =>
    split at taken
    · cases taken
      refine calm_set at_ rfl ?_ rfl rfl (fun _ => rfl) rfl rfl rfl fun path member => .inl member
      unfold Rpc.granted
      split
      next same => cases congrArg Rpc.stage same
      · rfl
    · cases taken
  · cases taken

/-- Only a reply to an acquire grants a path. -/
theorem granted_answered {path mode query : String} {reply : Except Paxos.HandlerError LockResponse}
    {awaited : Bool}
    (granted : (⟨.acquireLock path mode, .answered reply, awaited⟩ : Rpc).granted = some query) :
    query = path ∧ ∃ response, reply = .ok response ∧ response.success = true := by
  unfold Rpc.granted at granted
  split at granted
  next same =>
    cases same
    split at granted
    next success =>
      cases granted
      exact ⟨rfl, _, rfl, success⟩
    · cases granted
  · cases granted

section Acquire

variable {k : Nat} {path mode : String} {awaited : Bool} {server : ChubbyImpl Database}
  {reply : Except Paxos.HandlerError LockResponse}

/-- A handled AcquireLock adds at most the claim that its reply grants. -/
theorem acquire_claims (same : next = { s with
      rpcs := s.rpcs.set k ⟨.acquireLock path mode, .answered reply, awaited⟩, server })
    {query : String} (claimed : next.Claimed query) :
    s.Claimed query ∨ (query = path ∧ ∃ response, reply = .ok response ∧ response.success = true) := by
  rw [same] at claimed
  rcases claimed with member | ⟨rpc, member, granted⟩
  · exact .inl (.inl member)
  · rcases List.mem_or_eq_of_mem_set member with member | rfl
    · exact .inl (.inr ⟨rpc, member, granted⟩)
    · exact .inr (granted_answered granted)

theorem acquire_modes (steadfast : s.Steadfast)
    (at_ : s.rpcs[k]? = some ⟨.acquireLock path mode, .sent, awaited⟩) (same : next = { s with
      rpcs := s.rpcs.set k ⟨.acquireLock path mode, .answered reply, awaited⟩, server }) :
    ∀ rpc ∈ next.rpcs, ∀ query other, rpc.request = .acquireLock query other → other ≠ "FREE" := by
  rw [same]
  intro rpc member query other request
  obtain ⟨early, member, same⟩ := requests_set at_ member rfl
  exact steadfast.modes early member query other (same.trans request)

/-- A granted path has its holder and a value, and the other paths stay as they were. -/
theorem acquire_granted (steadfast : s.Steadfast)
    (at_ : s.rpcs[k]? = some ⟨.acquireLock path mode, .sent, awaited⟩) (same : next = { s with
      rpcs := s.rpcs.set k ⟨.acquireLock path mode, .answered reply, awaited⟩, server })
    (idle : ¬ s.Expiring)
    (holds : ∀ query, server.Holds query s.clientId ↔ query = path ∨ s.server.Holds query s.clientId)
    (value : ∃ value, server.found path = some value ∧ value ≠ "FREE")
    (found : ∀ query, query ≠ path → server.found query = s.server.found query) :
    next.Steadfast := by
  refine ⟨fun query claimed => ?_, fun expiring => ?_, acquire_modes steadfast at_ same⟩
  · have known := acquire_claims same claimed
    rw [same]
    dsimp only
    by_cases here : query = path
    · rw [here]
      exact ⟨(holds path).mpr (.inl rfl), value⟩
    · obtain ⟨held, known⟩ := steadfast.kept query (known.resolve_right fun new => here new.1)
      rw [found query here]
      exact ⟨(holds query).mpr (.inr held), known⟩
  · rw [same] at expiring
    exact absurd expiring idle

/-- A refused AcquireLock leaves every claim and every lock alone. -/
theorem acquire_refused (steadfast : s.Steadfast)
    (at_ : s.rpcs[k]? = some ⟨.acquireLock path mode, .sent, awaited⟩) (same : next = { s with
      rpcs := s.rpcs.set k ⟨.acquireLock path mode, .answered reply, awaited⟩, server })
    (failed : ∀ response, reply = .ok response → response.success = false)
    (found : ∀ query, server.found query = s.server.found query)
    (locks : server.clientLockMap = s.server.clientLockMap) : next.Steadfast := by
  have early (query : String) (claimed : next.Claimed query) : s.Claimed query := by
    apply (acquire_claims same claimed).resolve_right
    rintro ⟨_, response, answered, success⟩
    rw [failed response answered] at success
    cases success
  refine ⟨fun query claimed => ?_, fun expiring query claimed => ?_, acquire_modes steadfast at_ same⟩
  · have kept := steadfast.kept query (early query claimed)
    rw [same]
    dsimp only
    unfold ChubbyImpl.Holds
    rw [found, locks]
    exact kept
  · have claimed := early query claimed
    rw [same] at expiring
    exact steadfast.expiring expiring query claimed

/-- An AcquireLock that is granted outside an expiry puts its claim on a firm footing. -/
theorem deliver_acquire (steadfast : s.Steadfast)
    (at_ : s.rpcs[k]? = some ⟨.acquireLock path mode, .sent, awaited⟩)
    (steady : s.Expiring → ¬ s.Grants path mode)
    (handled : s.server.acquireLock s.clientId path mode = some (server, reply))
    (same : next = { s with
      rpcs := s.rpcs.set k ⟨.acquireLock path mode, .answered reply, awaited⟩, server }) :
    next.Steadfast := by
  have idle (grants : s.Grants path mode) : ¬ s.Expiring := fun expiring => steady expiring grants
  rcases ChubbyImpl.acquireLock_cases handled with
    ⟨rfl, rfl⟩ | ⟨chosen, stored, puts, rfl⟩ | ⟨chosen, rfl⟩ | ⟨rfl, response, rfl, failed⟩
  · refine acquire_refused steadfast at_ same ?_ (fun _ => rfl) rfl
    rintro _ ⟨⟩
  · obtain ⟨map, found⟩ := ChubbyImpl.put_database puts
    have asks : mode ≠ "FREE" := steadfast.modes _ (List.mem_of_getElem? at_) path mode rfl
    refine acquire_granted steadfast at_ same (idle (.inl chosen)) (fun query => ?_)
      ⟨mode, (found path).trans (if_pos rfl), asks⟩ fun query other => (found query).trans (if_neg other)
    rw [ChubbyImpl.insertLock_holds, and_iff_left rfl]
    unfold ChubbyImpl.Holds
    rw [map]
    rfl
  · obtain ⟨_, _, shared⟩ := acquireDecision_join chosen
    refine acquire_granted steadfast at_ same (idle (.inr chosen)) (fun query => ?_)
      ⟨"SHARED", shared, by decide⟩ fun _ _ => rfl
    rw [ChubbyImpl.insertLock_holds, and_iff_left rfl]
    rfl
  · refine acquire_refused steadfast at_ same ?_ (fun _ => rfl) rfl
    rintro _ ⟨⟩
    exact failed

end Acquire

/-- A release of a path that is not claimed leaves the claimed paths alone. -/
theorem deliver_release (steadfast : s.Steadfast) {k : Nat} {path : String} {awaited : Bool}
    (at_ : s.rpcs[k]? = some ⟨.releaseLock path, .sent, awaited⟩) (unclaimed : ¬ s.Claimed path)
    {server : ChubbyImpl Database} {reply : Except Paxos.HandlerError LockResponse}
    (handled : s.server.releaseLock s.clientId path = some (server, reply))
    (same : next = { s with rpcs := s.rpcs.set k ⟨.releaseLock path, .answered reply, awaited⟩, server }) :
    next.Steadfast := by
  have early (query : String) (claimed : next.Claimed query) : s.Claimed query := by
    rw [same] at claimed
    exact claimed.imp_right (granted_set rfl)
  have others (query : String) (other : query ≠ path) :
      server.found query = s.server.found query ∧
        (s.server.Holds query s.clientId → server.Holds query s.clientId) := by
    rcases ChubbyImpl.releaseLock_cases handled with
      ⟨rfl, _⟩ | ⟨stored, _, _, puts, rfl, _⟩ | ⟨rfl, _⟩
    · exact ⟨rfl, id⟩
    · obtain ⟨map, found⟩ := ChubbyImpl.put_database puts
      refine ⟨(found query).trans (if_neg other), fun holds => ?_⟩
      refine ChubbyImpl.eraseLock_holds.mpr ⟨fun here => other here.1, ?_⟩
      unfold ChubbyImpl.Holds
      rw [map]
      exact holds
    · exact ⟨rfl, id⟩
  refine ⟨fun query claimed => ?_, fun expiring query claimed => ?_, ?_⟩
  · have claimed := early query claimed
    obtain ⟨held, known⟩ := steadfast.kept query claimed
    obtain ⟨found, holds⟩ := others query fun here => unclaimed (here ▸ claimed)
    rw [same]
    dsimp only
    rw [found]
    exact ⟨holds held, known⟩
  · have claimed := early query claimed
    rw [same] at expiring
    exact steadfast.expiring expiring query claimed
  · rw [same]
    intro rpc member query mode request
    obtain ⟨early, member, same⟩ := requests_set at_ member rfl
    exact steadfast.modes early member query mode (same.trans request)

/-- While nothing is claimed, the lease checker may do anything. -/
theorem steadfast_unclaimed (steadfast : s.Steadfast) (rpcs : next.rpcs = s.rpcs)
    (locked : next.locked = s.locked) (nothing : ∀ path, ¬ s.Claimed path) : next.Steadfast := by
  have none_ (path : String) : ¬ next.Claimed path := by
    unfold Claimed
    rw [rpcs, locked]
    exact nothing path
  exact ⟨fun path claimed => absurd claimed (none_ path), fun _ => none_, rpcs ▸ steadfast.modes⟩

theorem deliver_steadfast (steadfast : s.Steadfast) {k : Nat} (steady : s.Steady (.deliver k))
    (taken : s.deliver k = some next) : next.Steadfast := by
  unfold deliver at taken
  split at taken
  next awaited at_ =>
    cases taken
    exact steadfast.calm (calm_set at_ rfl rfl rfl rfl (fun _ => rfl) rfl rfl rfl fun _ => .inl)
  next path mode awaited at_ =>
    obtain ⟨⟨server, reply⟩, handled, rfl⟩ := Option.map_eq_some_iff.mp taken
    exact deliver_acquire steadfast at_ (steady _ at_) handled rfl
  next path awaited at_ =>
    obtain ⟨⟨server, reply⟩, handled, rfl⟩ := Option.map_eq_some_iff.mp taken
    exact deliver_release steadfast at_ (steady _ at_) handled rfl
  · cases taken

theorem newView_calm {view : Int} (taken : s.newView view = some next) : Calm s next := by
  unfold newView at taken
  split at taken <;> cases taken
  exact calm_same rfl rfl (fun _ => rfl) rfl rfl rfl fun _ => id

theorem sendKeepAlive_calm (taken : s.sendKeepAlive = some next) : Calm s next := by
  unfold sendKeepAlive at taken
  split at taken <;> cases taken
  · exact calm_own
  · exact calm_own

theorem keeperWakes_calm (taken : s.keeperWakes = some next) : Calm s next := by
  unfold keeperWakes at taken
  split at taken
  · split at taken <;> cases taken
    exact calm_own
  · cases taken

theorem checkLeases_steadfast (steadfast : s.Steadfast) {order : List String}
    (steady : s.Steady (.checkLeases order)) (taken : s.checkLeases order = some next) :
    next.Steadfast := by
  unfold checkLeases at taken
  split at taken
  next free =>
    cases taken
    by_cases expired : s.server.expiredClients s.clock = []
    · -- nobody has expired, so the pass has nothing to do
      have empty : order = [] := by
        have same := free.2.2
        rw [expired] at same
        exact same.eq_nil
      subst empty
      exact steadfast.calm (calm_same rfl rfl (fun _ => rfl) rfl free.1.symm rfl fun _ => id)
    · exact steadfast_unclaimed steadfast rfl rfl (steady expired).not_claimed
  · cases taken

theorem expireNext_steadfast (steadfast : s.Steadfast) (taken : s.expireNext = some next) :
    next.Steadfast := by
  unfold expireNext at taken
  split at taken
  next client rest keys expiring =>
    cases taken
    refine steadfast_unclaimed steadfast rfl rfl (steadfast.expiring (.inl ?_))
    rw [expiring]
    exact List.cons_ne_nil _ _
  · cases taken

theorem freeKey_steadfast (steadfast : s.Steadfast) (taken : s.freeKey = some next) : next.Steadfast := by
  unfold freeKey at taken
  split at taken
  · cases taken
  next key rest keys =>
    obtain ⟨server, _, rfl⟩ := Option.map_eq_some_iff.mp taken
    refine steadfast_unclaimed steadfast rfl rfl (steadfast.expiring (.inr ?_))
    rw [keys]
    exact List.cons_ne_nil _ _

/-- Every steady step keeps the claims of the client in the server's state. -/
theorem Steadfast.step (steadfast : s.Steadfast) {label : SessionLabel} (steady : s.Steady label)
    (taken : s.step label = some next) : next.Steadfast := by
  cases label with
  | tick now =>
      simp only [Session.step, Option.ite_none_right_eq_some, Option.some.injEq] at taken
      obtain ⟨_, rfl⟩ := taken
      exact steadfast.calm calm_own
  | newView view => exact steadfast.calm (newView_calm taken)
  | sendKeepAlive => exact steadfast.calm (sendKeepAlive_calm taken)
  | keeperTests emptyServer => exact steadfast.calm (keeperTests_calm taken)
  | keeperReturns => exact steadfast.calm (keeperReturns_calm taken)
  | keeperFails => exact steadfast.calm (keeperFails_calm taken)
  | keeperWakes => exact steadfast.calm (keeperWakes_calm taken)
  | chubbyLock path mode =>
      cases taken
      exact steadfast.calm (call_calm (by rintro _ _ ⟨⟩; exact steady))
  | chubbyUnlock path =>
      cases taken
      exact steadfast.calm chubbyUnlock_calm
  | returns k => exact steadfast.calm (returns_calm taken)
  | fails k failure => exact steadfast.calm (fails_calm taken)
  | deliver k => exact deliver_steadfast steadfast steady taken
  | wake k => exact steadfast.calm (wake_calm taken)
  | checkLeases order => exact checkLeases_steadfast steadfast steady taken
  | expireNext => exact expireNext_steadfast steadfast taken
  | freeKey => exact freeKey_steadfast steadfast taken

/-- Along every run of steady steps, `send_keep_alive` returns 0 only while the server has every path
that the client holds. -/
theorem session_kept {clientId : String} {clock : Nat} {labels : List SessionLabel}
    (steady : Guarded Session.step Steady (opened clientId clock) labels) :
    EveryStep Session.step
      (fun _ label next => label = .keeperReturns → next.keeper = .returned 0 → next.Kept)
      (opened clientId clock) labels := by
  refine @everyStep_of_guarded _ _ _ _ _ Steadfast ?_ _ _ ?_ steady
  · intro s label next steadfast steady taken
    have kept := steadfast.step steady taken
    exact ⟨fun _ _ path member => kept.kept path (.inl member), kept⟩
  · refine ⟨?_, ?_, ?_⟩
    · rintro path (member | ⟨rpc, member, _⟩) <;> cases member
    · rintro (busy | busy) <;> exact absurd rfl busy
    · intro rpc member
      cases member

/-- The client loses one call, and its server has expired it when it comes back. -/
def lateClient : List SessionLabel :=
  [.sendKeepAlive, .keeperTests false, .deliver 0, .wake 0, .keeperReturns,
    .chubbyLock "x" "EXCLUSIVE", .deliver 1, .returns 1,
    .sendKeepAlive, .keeperTests false, .keeperFails, .tick 13000,
    .checkLeases ["1"], .expireNext, .freeKey,
    .keeperWakes, .keeperTests false, .keeperTests false, .deliver 3, .wake 3]

/-- The client renews its lease before it runs out. -/
def steadyClient : List SessionLabel :=
  [.sendKeepAlive, .keeperTests false, .deliver 0, .wake 0, .keeperReturns,
    .chubbyLock "x" "EXCLUSIVE", .deliver 1, .returns 1,
    .sendKeepAlive, .keeperTests false, .deliver 2, .tick 11900, .checkLeases [], .wake 2, .keeperReturns]

theorem session_kept_steadyClient : ∃ s : Session,
    run Session.step (opened "1" 0) steadyClient = some s ∧ s.keeper = .returned 0 ∧ s.locked = ["x"] ∧
      EveryStep Session.step
        (fun _ label next => label = .keeperReturns → next.keeper = .returned 0 → next.Kept)
        (opened "1" 0) steadyClient := by
  obtain ⟨s, ran, checked⟩ := (Option.any_eq_true _ _).mp (by decide :
    (run Session.step (opened "1" 0) steadyClient).any (fun s =>
      decide (s.keeper = .returned 0 ∧ s.locked = ["x"])) = true)
  obtain ⟨returned, locked⟩ := of_decide_eq_true checked
  have steady : Guarded Session.step Steady (opened "1" 0) steadyClient := by decide
  exact ⟨s, ran, returned, locked, session_kept steady⟩

/-- The second KeepAlive of the late client returns 0 although its lock is gone. -/
theorem session_lost : ∃ s next : Session,
    run Session.step (opened "1" 0) lateClient = some s ∧ s.step .keeperReturns = some next ∧
      next.keeper = .returned 0 ∧ "x" ∈ next.locked ∧ next.server.found "x" = some "FREE" ∧ ¬ next.Kept := by
  obtain ⟨s, ran, checked⟩ := (Option.any_eq_true _ _).mp (by decide :
    (run Session.step (opened "1" 0) lateClient).any (fun s =>
      (s.step .keeperReturns).any fun next => decide (next.keeper = .returned 0 ∧
        "x" ∈ next.locked ∧ next.server.found "x" = some "FREE")) = true)
  obtain ⟨next, taken, checked⟩ := (Option.any_eq_true _ _).mp checked
  obtain ⟨returned, locked, free⟩ := of_decide_eq_true checked
  refine ⟨s, next, ran, taken, returned, locked, free, fun kept => ?_⟩
  obtain ⟨_, value, found, other⟩ := kept "x" locked
  rw [free] at found
  cases found
  exact other rfl

end Session

end Chubby.Client
