/-
This file proves when the expiry thread frees a path of a client that has a live lease again.
-/

import Chubby.Lock.Wedge

namespace Chubby.Lock

open Chubby.Library

/-- The server and its expiry thread, which still has to look up the keys of `expiredClients` and to
free the `lockedKeys` of `clientId`. The history variable `renewed` has the last renewal of every
client since the thread last collected the expired leases. -/
structure Expiry where
  chubby : ChubbyImpl Database
  clock : Nat
  expiredClients : List String
  clientId : String
  lockedKeys : List String
  renewed : String → Option Nat

/-- A whole handler is one step, and so is each section of the thread that holds a lock. A renewal
names the deadline that its handler read on arrival. -/
inductive ExpiryLabel where
  | keepAlive (client : String) (deadline now : Nat)
  | acquireLock (client path mode : String)
  | releaseLock (client path : String)
  | collect (now : Nat) (order : List String)
  | lookUp
  | freeKey (now : Nat)
  deriving DecidableEq, Repr

namespace Expiry

def initial (slotNumber : Int) : Expiry where
  chubby := .initial .empty slotNumber
  clock := 0
  expiredClients := []
  clientId := ""
  lockedKeys := []
  renewed := fun _ => none

def keepAlive (s : Expiry) (client : String) (deadline now : Nat) : Option Expiry :=
  if s.clock ≤ now ∧ s.chubby.keepAliveWakes client deadline now then
    some { s with
      chubby := (s.chubby.keepAlive client now).1
      clock := now
      renewed := Function.update s.renewed client (some now) }
  else none

/-- The thread erases the expired leases in the section that collects them. -/
def collect (s : Expiry) (now : Nat) (order : List String) : Option Expiry :=
  if s.expiredClients = [] ∧ s.lockedKeys = [] ∧ s.clock ≤ now ∧
      order.Perm (s.chubby.expiredClients now) then
    let leases := order.foldl (fun leases client => leases.erase client) s.chubby.clientLeaseMap
    some { s with
      chubby := { s.chubby with clientLeaseMap := leases }
      clock := now
      expiredClients := order
      renewed := fun _ => none }
  else none

def lookUp (s : Expiry) : Option Expiry :=
  match s.lockedKeys, s.expiredClients with
  | [], client :: rest => some { s with
      expiredClients := rest
      clientId := client
      lockedKeys := s.chubby.lockedKeys client }
  | _, _ => none

def freeKey (s : Expiry) (now : Nat) : Option Expiry :=
  match s.lockedKeys with
  | [] => none
  | key :: rest =>
      if s.clock ≤ now then
        (s.chubby.expireKey key).map fun chubby => { s with chubby, clock := now, lockedKeys := rest }
      else none

def step (s : Expiry) : ExpiryLabel → Option Expiry
  | .keepAlive client deadline now => s.keepAlive client deadline now
  | .acquireLock client path mode =>
      (s.chubby.acquireLock client path mode).map fun handled => { s with chubby := handled.1 }
  | .releaseLock client path =>
      (s.chubby.releaseLock client path).map fun handled => { s with chubby := handled.1 }
  | .collect now order => s.collect now order
  | .lookUp => s.lookUp
  | .freeKey now => s.freeKey now

/-- The step writes `FREE` to the path for an expired client. -/
def Frees (s : Expiry) (path : String) : Prop :=
  s.lockedKeys.head? = some path ∧ Locked (s.chubby.found path)

instance (s : Expiry) (path : String) : Decidable (s.Frees path) := inferInstanceAs (Decidable (_ ∧ _))

/-- A client whose path is freed has no lease with a deadline in the future. -/
def NoLiveLease (client path : String) (s : Expiry) : ExpiryLabel → Expiry → Prop
  | .freeKey now, _ => s.Frees path →
      ∀ deadline, s.chubby.clientLeaseMap.lookup client = some deadline → deadline ≤ now
  | _, _ => True

/-- A client whose path is freed has not renewed its lease since the thread collected it, or did so a
whole lease ago. -/
def NotRenewed (client path : String) (s : Expiry) : ExpiryLabel → Prop
  | .freeKey now => s.Frees path → ∀ time ∈ s.renewed client, time + leaseTimeout ≤ now
  | _ => True

instance (client path : String) (s : Expiry) :
    (label : ExpiryLabel) → Decidable (NotRenewed client path s label)
  | .freeKey now => inferInstanceAs
      (Decidable (s.Frees path → ∀ time ∈ s.renewed client, time + leaseTimeout ≤ now))
  | .keepAlive _ _ _ | .acquireLock _ _ _ | .releaseLock _ _ | .collect _ _ | .lookUp => isTrue trivial

/-- Only the client ever uses the path. -/
def SoleUser (client path : String) : ExpiryLabel → Prop
  | .acquireLock other used _ | .releaseLock other used => used = path → other = client
  | _ => True

/-- The thread still has to free keys of the client. -/
def Pending (s : Expiry) (client : String) : Prop :=
  client ∈ s.expiredClients ∨ (client = s.clientId ∧ s.lockedKeys ≠ [])

/-- Only its sole user has the path, and a pending client has the lease of its last renewal. -/
structure Attributed (client path : String) (s : Expiry) : Prop where
  holder : ∀ other, s.chubby.Holds path other → other = client
  listed : path ∈ s.lockedKeys → s.clientId = client
  pending : ∀ other, s.Pending other →
    s.chubby.clientLeaseMap.lookup other = (s.renewed other).map (· + leaseTimeout)

theorem attributed_initial (client path : String) (slotNumber : Int) :
    Attributed client path (initial slotNumber) where
  holder other holds := absurd holds Std.TreeSet.not_mem_emptyc
  listed member := by cases member
  pending other pending := by
    obtain member | ⟨_, keys⟩ := pending
    · cases member
    · exact absurd rfl keys

end Expiry

theorem lookup_eraseAll {leases : AList fun _ : String => Nat} {clients : List String} {client : String}
    (member : client ∈ clients) :
    (clients.foldl (fun leases client => leases.erase client) leases).lookup client = none := by
  have kept (others : List String) : ∀ leases : AList fun _ : String => Nat,
      leases.lookup client = none →
        (others.foldl (fun leases client => leases.erase client) leases).lookup client = none := by
    induction others with
    | nil => exact fun _ absent => absent
    | cons other rest ih =>
        intro leases absent
        refine ih (leases.erase other) ?_
        by_cases same : client = other
        · rw [same]
          exact AList.lookup_erase other leases
        · rw [AList.lookup_erase_ne same]
          exact absent
  induction clients generalizing leases with
  | nil => cases member
  | cons first rest ih =>
      obtain rfl | later := List.mem_cons.mp member
      · exact kept rest _ (AList.lookup_erase client leases)
      · exact ih later

/-- The handlers of the two lock calls leave every lease alone. -/
theorem acquireLock_leases {s next : ChubbyImpl Database} {client path mode : String}
    {reply : Except Paxos.HandlerError LockResponse}
    (handled : s.acquireLock client path mode = some (next, reply)) :
    next.clientLeaseMap = s.clientLeaseMap := by
  obtain ⟨rfl, _⟩ | ⟨_, stored, puts, rfl⟩ | ⟨_, rfl⟩ | ⟨rfl, _⟩ := ChubbyImpl.acquireLock_cases handled
  · rfl
  · cases puts
    rfl
  · rfl
  · rfl

theorem releaseLock_leases {s next : ChubbyImpl Database} {client path : String}
    {reply : Except Paxos.HandlerError LockResponse}
    (handled : s.releaseLock client path = some (next, reply)) :
    next.clientLeaseMap = s.clientLeaseMap ∧
      ∀ query other, next.Holds query other → s.Holds query other := by
  obtain ⟨rfl, _⟩ | ⟨stored, _, _, puts, rfl, _⟩ | ⟨rfl, _⟩ := ChubbyImpl.releaseLock_cases handled
  · exact ⟨rfl, fun _ _ holds => holds⟩
  · cases puts
    exact ⟨rfl, fun _ _ holds => (ChubbyImpl.eraseLock_holds.mp holds).2⟩
  · exact ⟨rfl, fun _ _ holds => holds⟩

theorem expireKey_leases {s next : ChubbyImpl Database} {key : String}
    (expires : s.expireKey key = some next) : next.clientLeaseMap = s.clientLeaseMap := by
  unfold ChubbyImpl.expireKey at expires
  split at expires
  · cases expires
    rfl
  · cases expires
    rfl

namespace Expiry

variable {client path : String} {s next : Expiry}

theorem Attributed.keepAlive {other : String} {deadline now : Nat} (known : Attributed client path s)
    (taken : s.keepAlive other deadline now = some next) : Attributed client path next := by
  simp only [Expiry.keepAlive, Option.ite_none_right_eq_some, Option.some.injEq] at taken
  obtain ⟨_, rfl⟩ := taken
  refine ⟨known.holder, known.listed, fun query pending => ?_⟩
  dsimp only [ChubbyImpl.keepAlive]
  by_cases same : query = other
  · rw [same, AList.lookup_insert, Function.update_self]
    rfl
  · rw [AList.lookup_insert_ne same, Function.update_of_ne same]
    exact known.pending query pending

theorem Attributed.collect {now : Nat} {order : List String} (known : Attributed client path s)
    (taken : s.collect now order = some next) : Attributed client path next := by
  simp only [Expiry.collect, Option.ite_none_right_eq_some, Option.some.injEq] at taken
  obtain ⟨⟨_, keys, _, _⟩, rfl⟩ := taken
  refine ⟨known.holder, known.listed, fun query pending => ?_⟩
  obtain member | ⟨_, more⟩ := pending
  · exact lookup_eraseAll member
  · exact absurd keys more

theorem Attributed.lookUp (known : Attributed client path s) (taken : s.lookUp = some next) :
    Attributed client path next := by
  unfold Expiry.lookUp at taken
  split at taken
  next keys clients =>
    cases taken
    refine ⟨known.holder, fun member => ?_, fun query pending => known.pending query (.inl ?_)⟩
    · exact known.holder _ (ChubbyImpl.mem_lockedKeys.mp member)
    · rw [clients]
      obtain member | ⟨same, _⟩ := pending
      · exact List.mem_cons_of_mem _ member
      · rw [same]
        exact List.mem_cons_self ..
  · cases taken

theorem Attributed.freeKey {now : Nat} (known : Attributed client path s)
    (taken : s.freeKey now = some next) : Attributed client path next := by
  unfold Expiry.freeKey at taken
  split at taken
  · cases taken
  next key rest keys =>
    split at taken
    · obtain ⟨chubby, expires, rfl⟩ := Option.map_eq_some_iff.mp taken
      refine ⟨fun other holds => known.holder other ?_, fun member => known.listed ?_,
        fun query pending => ?_⟩
      · unfold ChubbyImpl.Holds at holds ⊢
        rwa [(ChubbyImpl.expireKey_database expires).1] at holds
      · rw [keys]
        exact List.mem_cons_of_mem _ member
      · dsimp only
        rw [expireKey_leases expires]
        refine known.pending query (pending.imp_right fun same => ⟨same.1, ?_⟩)
        rw [keys]
        exact List.cons_ne_nil _ _
    · cases taken

theorem Attributed.step {label : ExpiryLabel} (known : Attributed client path s)
    (sole : SoleUser client path label) (taken : s.step label = some next) :
    Attributed client path next := by
  cases label with
  | keepAlive other deadline now => exact known.keepAlive taken
  | acquireLock other used mode =>
      obtain ⟨⟨chubby, reply⟩, handled, rfl⟩ := Option.map_eq_some_iff.mp taken
      refine ⟨fun holder holds => ?_, known.listed, fun query pending => ?_⟩
      · obtain ⟨same, rfl, _⟩ | before := ((acquireLock_effect handled).2 path holder).mp holds
        · exact sole same.symm
        · exact known.holder holder before
      · dsimp only
        rw [acquireLock_leases handled]
        exact known.pending query pending
  | releaseLock other used =>
      obtain ⟨⟨chubby, reply⟩, handled, rfl⟩ := Option.map_eq_some_iff.mp taken
      obtain ⟨leases, holds⟩ := releaseLock_leases handled
      refine ⟨fun holder after => known.holder holder (holds path holder after), known.listed,
        fun query pending => ?_⟩
      dsimp only
      rw [leases]
      exact known.pending query pending
  | collect now order => exact known.collect taken
  | lookUp => exact known.lookUp taken
  | freeKey now => exact known.freeKey taken

/-- The step that frees the path finds no live lease exactly when no renewal came in between. -/
theorem noLiveLease_step {label : ExpiryLabel} (known : Attributed client path s) :
    NoLiveLease client path s label next ↔ NotRenewed client path s label := by
  cases label with
  | freeKey now =>
      refine imp_congr_right fun frees => ?_
      have member : path ∈ s.lockedKeys := List.mem_of_mem_head? frees.1
      have current : client = s.clientId := (known.listed member).symm
      have lease := known.pending client (.inr ⟨current, List.ne_nil_of_mem member⟩)
      rw [lease]
      cases s.renewed client <;> simp
  | keepAlive _ _ _ | acquireLock _ _ _ | releaseLock _ _ | collect _ _ | lookUp => exact Iff.rfl

/-- In every run in which only one client uses a path, the thread never takes the path from a live
lease exactly when no renewal of the client falls between the collection of its lease and the free. -/
theorem noLiveLease_iff {slotNumber : Int} {labels : List ExpiryLabel} {final : Expiry}
    (sole : ∀ label ∈ labels, SoleUser client path label)
    (ran : run step (initial slotNumber) labels = some final) :
    EveryStep step (NoLiveLease client path) (initial slotNumber) labels ↔
      Guarded step (NotRenewed client path) (initial slotNumber) labels := by
  refine @everyStep_iff_guarded _ _ step (NotRenewed client path) (NoLiveLease client path)
    (Attributed client path) (SoleUser client path) ?_ ?_ _ final _ ?_ sole ran
  · intro s label next known _ _
    exact noLiveLease_step known
  · intro s label next known user _ taken
    exact known.step user taken
  · exact attributed_initial client path slotNumber

/-- A client takes a path, loses its lease and comes back after the path has been freed. -/
def expired : List ExpiryLabel :=
  [.keepAlive "1" 0 0, .acquireLock "1" "x" "EXCLUSIVE", .collect 12000 ["1"], .lookUp, .freeKey 12000,
    .keepAlive "1" 0 12000, .acquireLock "1" "x" "EXCLUSIVE"]

theorem noLiveLease_iff_expired : ∃ final : Expiry, run step (initial 0) expired = some final ∧
    EveryStep step (NoLiveLease "1" "x") (initial 0) expired := by
  obtain ⟨final, ran, _⟩ := (Option.any_eq_true _ _).mp (by decide :
    (run step (initial 0) expired).any (fun _ => true) = true)
  have sole : ∀ label ∈ expired, SoleUser "1" "x" label := by
    simp [expired, SoleUser]
  exact ⟨final, ran, (noLiveLease_iff sole ran).mpr (by decide)⟩

/-- A client comes back and takes a fresh path before the thread looks up its keys. -/
def backInTime : List ExpiryLabel :=
  [.keepAlive "1" 0 0, .collect 12000 ["1"], .keepAlive "1" 0 12000,
    .acquireLock "1" "x" "EXCLUSIVE", .lookUp]

/-- The thread frees the path that the client has just taken under its new lease. -/
theorem livePath_freed : ∃ s final : Expiry, run step (initial 0) backInTime = some s ∧
    s.step (.freeKey 12000) = some final ∧
    (∀ label ∈ backInTime ++ [.freeKey 12000], SoleUser "1" "x" label) ∧
    final.chubby.found "x" = some "FREE" ∧ final.chubby.clientLeaseMap.lookup "1" = some 24000 ∧
    ¬ EveryStep step (NoLiveLease "1" "x") (initial 0) (backInTime ++ [.freeKey 12000]) := by
  obtain ⟨s, ran, checked⟩ := (Option.any_eq_true _ _).mp (by decide :
    (run step (initial 0) backInTime).any (fun s => decide (s.Frees "x" ∧
      s.chubby.clientLeaseMap.lookup "1" = some 24000) && (s.step (.freeKey 12000)).any fun final =>
        decide (final.chubby.found "x" = some "FREE" ∧
          final.chubby.clientLeaseMap.lookup "1" = some 24000)) = true)
  obtain ⟨before, after⟩ := Bool.and_eq_true_iff.mp checked
  obtain ⟨frees, live⟩ := of_decide_eq_true before
  obtain ⟨final, taken, shown⟩ := (Option.any_eq_true _ _).mp after
  obtain ⟨free, lease⟩ := of_decide_eq_true shown
  have sole : ∀ label ∈ backInTime ++ [.freeKey 12000], SoleUser "1" "x" label := by
    simp [backInTime, SoleUser]
  refine ⟨s, final, ran, taken, sole, free, lease, fun every => ?_⟩
  have ended : 24000 ≤ 12000 := every.last ran taken frees 24000 live
  omega

end Expiry

end Chubby.Lock
