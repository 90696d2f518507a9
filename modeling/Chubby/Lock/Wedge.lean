/-
This file proves for which requests, with any mode string, no path of a server becomes wedged.
-/

import Chubby.Lock.LeaseRelease

namespace Chubby.Lock

open Chubby.Library

/-- A request carries its mode as the text that the client sent. -/
inductive ClientRequest where
  | keepAlive (client : String) (now : Nat)
  | acquireLock (client path mode : String)
  | releaseLock (client path : String)
  | checkAndExpireLeases (now : Nat) (order : List String)
  deriving DecidableEq, Repr

def Timed.serve (s : Timed Database) : ClientRequest → Option (Timed Database)
  | .keepAlive client now => s.step (.keepAlive client now)
  | .acquireLock client path mode =>
      (s.chubby.acquireLock client path mode).map fun handled => ⟨handled.1, s.clock⟩
  | .releaseLock client path => s.step (.releaseLock client path)
  | .checkAndExpireLeases now order => s.step (.checkAndExpireLeases now order)

/-- An operation is a request with the text of its mode. -/
def Operation.request : Operation → ClientRequest
  | .keepAlive client now => .keepAlive client now
  | .acquireLock client path mode => .acquireLock client path mode.text
  | .releaseLock client path => .releaseLock client path
  | .checkAndExpireLeases now order => .checkAndExpireLeases now order

theorem Timed.serve_request (s : Timed Database) (operation : Operation) :
    s.serve operation.request = s.step operation := by
  cases operation <;> rfl

/-- The reply of a request that locks or unlocks a path. -/
def ChubbyImpl.reply (s : ChubbyImpl Database) :
    ClientRequest → Option (Except Paxos.HandlerError LockResponse)
  | .acquireLock client path mode => (s.acquireLock client path mode).map Prod.snd
  | .releaseLock client path => (s.releaseLock client path).map Prod.snd
  | .keepAlive _ _ | .checkAndExpireLeases _ _ => none

/-- The request gives the path to its client. -/
def ChubbyImpl.grants (s : ChubbyImpl Database) (client path mode : String) : Bool :=
  match acquireDecision (s.hasSession client) (s.found path) mode with
  | .put | .join => true
  | .refuse _ | .unanswered => false

/-- The server together with the pairs of a path and a client whose lease has been expired since the
client last took the path, a history variable. -/
structure Serving where
  server : Timed Database
  lapsed : String → String → Bool

namespace Serving

def initial (slotNumber : Int) : Serving := ⟨.initial Database.empty slotNumber, fun _ _ => false⟩

/-- A client that takes a path holds it anew; the expiry of a client lapses all that it holds. -/
def lapse (s : Serving) : ClientRequest → String → String → Bool
  | .acquireLock client path mode, query, holder =>
      if query = path ∧ holder = client ∧ s.server.chubby.grants client path mode then false
      else s.lapsed query holder
  | .checkAndExpireLeases _ order, query, holder => decide (holder ∈ order) || s.lapsed query holder
  | .keepAlive _ _, query, holder | .releaseLock _ _, query, holder => s.lapsed query holder

def step (s : Serving) (request : ClientRequest) : Option Serving :=
  (s.server.serve request).map fun server => ⟨server, s.lapse request⟩

theorem step_eq_some {s next : Serving} {request : ClientRequest} :
    s.step request = some next ↔ s.server.serve request = some next.server ∧
      next.lapsed = s.lapse request := by
  obtain ⟨server, lapsed⟩ := next
  simp only [step, Option.map_eq_some_iff, Serving.mk.injEq]
  constructor
  · rintro ⟨_, served, rfl, rfl⟩
    exact ⟨served, rfl⟩
  · rintro ⟨served, rfl⟩
    exact ⟨server, served, rfl, rfl⟩

/-- A client with a session gets the path in either mode. -/
def Acquirable (s : Serving) (path : String) : Prop :=
  ∀ (client : String) (mode : LockingMode), s.server.chubby.hasSession client = true →
    ∃ next response, s.server.chubby.acquireLock client path mode.text = some (next, .ok response) ∧
      response.success = true

/-- What a request may leave behind: known values only, an answer, and no path that stays locked by
clients whose leases have been expired. -/
structure Unwedged (s : Serving) (request : ClientRequest) (next : Serving) : Prop where
  plain : ∀ path value, next.server.chubby.found path = some value →
    value = "FREE" ∨ value = "SHARED" ∨ value = "EXCLUSIVE"
  answered : ∀ response, s.server.chubby.reply request = some (.ok response) →
    response.success = true ∨ response.errorMessage ≠ ""
  reacquired : ∀ path, (∀ client, next.server.chubby.Holds path client → next.lapsed path client = true) →
    next.Acquirable path

/-- A client with a session asks for one of the two modes, or for `FREE` on a path without a value. -/
def AsksKnown (s : Serving) : ClientRequest → Prop
  | .acquireLock client path mode => s.server.chubby.hasSession client = true →
      Locked (some mode) ∨ (s.server.chubby.found path = none ∧ mode = "FREE")
  | .keepAlive _ _ | .releaseLock _ _ | .checkAndExpireLeases _ _ => True

instance (s : Serving) : (request : ClientRequest) → Decidable (s.AsksKnown request)
  | .acquireLock client path mode => inferInstanceAs (Decidable (s.server.chubby.hasSession client = true →
      Locked (some mode) ∨ (s.server.chubby.found path = none ∧ mode = "FREE")))
  | .keepAlive _ _ | .releaseLock _ _ | .checkAndExpireLeases _ _ => isTrue trivial

/-- Every locked path has a holder whose lease has not been expired since it took the path. -/
def HeldAlive (s : Serving) : Prop :=
  ∀ path, Locked (s.server.chubby.found path) →
    ∃ client, s.server.chubby.Holds path client ∧ s.lapsed path client = false

end Serving

theorem plain_iff {s : ChubbyImpl Database} : Plain s ↔ ∀ path value, s.found path = some value →
    value = "FREE" ∨ value = "SHARED" ∨ value = "EXCLUSIVE" := by
  refine forall_congr' fun path => ?_
  cases found : s.found path <;> simp [Vacant, Locked]

section Replies

variable {s : ChubbyImpl Database} {client path mode : String}

theorem acquireDecision_refuse {session : Bool} {found : Option String} {message : String}
    (chosen : acquireDecision session found mode = .refuse message) : message ≠ "" := by
  cases session <;> cases found <;> grind [acquireDecision]

theorem releaseDecision_refuse {found : Option String} {message : String}
    (chosen : releaseDecision found = .refuse message) : message ≠ "" := by
  cases found <;> grind [releaseDecision]

/-- A request for an unknown mode, or on an unknown value, is the only one without a decision. -/
theorem acquireDecision_unanswered {session : Bool} {found : Option String}
    (known : Vacant found ∨ Locked found) : acquireDecision session found mode = .unanswered ↔
      session = true ∧ found ≠ none ∧ ¬ Locked (some mode) := by
  cases session <;> cases found <;> grind [acquireDecision, Vacant, Locked]

/-- An acquire of this server returns with a reply that tells its decision. -/
theorem acquireLock_database (s : ChubbyImpl Database) (client path mode : String) :
    ∃ next response, s.acquireLock client path mode = some (next, .ok response) ∧
      (response.success = true ↔ s.grants client path mode = true) ∧
      ((response.success = true ∨ response.errorMessage ≠ "") ↔
        acquireDecision (s.hasSession client) (s.found path) mode ≠ .unanswered) := by
  have session : s.nextSlot.hasSession client = s.hasSession client := rfl
  unfold ChubbyImpl.acquireLock ChubbyImpl.grants
  rw [if_neg (show ¬ PaxosService.leaderElectionHappened s.paxosService = true from Bool.false_ne_true)]
  dsimp only
  rw [session, ChubbyImpl.nextSlot_found]
  cases chosen : acquireDecision (s.hasSession client) (s.found path) mode with
  | put => exact ⟨_, _, rfl, by simp, by simp⟩
  | join => exact ⟨_, _, rfl, by simp, by simp⟩
  | refuse message => exact ⟨_, _, rfl, by simp, by simp [acquireDecision_refuse chosen]⟩
  | unanswered => exact ⟨_, _, rfl, by simp, by simp⟩

/-- What an acquire leaves in the database and in the lock map. -/
theorem acquireLock_effect {next : ChubbyImpl Database} {reply : Except Paxos.HandlerError LockResponse}
    (handled : s.acquireLock client path mode = some (next, reply)) :
    (∀ query, next.found query =
      if query = path ∧ acquireDecision (s.hasSession client) (s.found path) mode = .put then some mode
      else s.found query) ∧
    ∀ query other, next.Holds query other ↔
      (query = path ∧ other = client ∧ s.grants client path mode = true) ∨ s.Holds query other := by
  have session : s.nextSlot.hasSession client = s.hasSession client := rfl
  unfold ChubbyImpl.acquireLock at handled
  rw [if_neg (show ¬ PaxosService.leaderElectionHappened s.paxosService = true from Bool.false_ne_true)]
    at handled
  dsimp only at handled
  rw [session, ChubbyImpl.nextSlot_found] at handled
  unfold ChubbyImpl.grants
  cases chosen : acquireDecision (s.hasSession client) (s.found path) mode with
  | put =>
      rw [chosen] at handled
      obtain ⟨stored, puts, same⟩ := Option.map_eq_some_iff.mp handled
      cases same
      obtain ⟨map, found⟩ := ChubbyImpl.put_database puts
      refine ⟨fun query => ?_, fun query other => ?_⟩
      · refine (found query).trans ?_
        simp
      · rw [ChubbyImpl.insertLock_holds]
        have kept : stored.Holds query other ↔ s.Holds query other := by
          unfold ChubbyImpl.Holds
          rw [map]
          rfl
        simp [kept]
  | join =>
      rw [chosen] at handled
      cases handled
      refine ⟨fun query => ?_, fun query other => ?_⟩
      · simp [ChubbyImpl.found, ChubbyImpl.insertLock, ChubbyImpl.nextSlot]
      · rw [ChubbyImpl.insertLock_holds]
        simp [ChubbyImpl.Holds, ChubbyImpl.nextSlot]
  | refuse message =>
      rw [chosen] at handled
      cases handled
      exact ⟨fun query => by simp, fun query other => by simp [ChubbyImpl.Holds, ChubbyImpl.nextSlot]⟩
  | unanswered =>
      rw [chosen] at handled
      cases handled
      exact ⟨fun query => by simp, fun query other => by simp [ChubbyImpl.Holds, ChubbyImpl.nextSlot]⟩

/-- A release of this server answers unless the path has an unknown value. -/
theorem releaseLock_answered (known : Vacant (s.found path) ∨ Locked (s.found path))
    {response : LockResponse} {next : ChubbyImpl Database}
    (handled : s.releaseLock client path = some (next, .ok response)) :
    response.success = true ∨ response.errorMessage ≠ "" := by
  unfold ChubbyImpl.releaseLock at handled
  rw [if_neg (show ¬ PaxosService.leaderElectionHappened s.paxosService = true from Bool.false_ne_true)]
    at handled
  cases chosen : releaseDecision (s.found path) with
  | put =>
      rw [chosen] at handled
      obtain ⟨stored, puts, same⟩ := Option.map_eq_some_iff.mp handled
      cases same
      exact .inl rfl
  | refuse message =>
      rw [chosen] at handled
      cases handled
      exact .inr (releaseDecision_refuse chosen)
  | join => exact absurd chosen releaseDecision_ne_join
  | unanswered =>
      exfalso
      obtain vacant | locked := known
      · obtain absent | free := vacant
        · rw [absent] at chosen
          cases chosen
        · rw [free] at chosen
          exact absurd chosen (by decide)
      · rw [releaseDecision_put.mpr locked] at chosen
        cases chosen

/-- A path that nobody has is given to a client with a session in either mode. -/
theorem grants_vacant (vacant : Vacant (s.found path)) (session : s.hasSession client = true)
    (mode : LockingMode) : s.grants client path mode.text = true := by
  unfold ChubbyImpl.grants
  rw [session]
  obtain absent | free := vacant
  · rw [absent]
    cases mode <;> rfl
  · rw [free]
    cases mode <;> decide

end Replies

namespace Serving

variable {s next : Serving} {request : ClientRequest}

/-- A locked path that an acquire leaves behind has the new holder or an old one. -/
theorem HeldAlive.acquire {client path mode : String} {handled : ChubbyImpl Database}
    {reply : Except Paxos.HandlerError LockResponse} (alive : s.HeldAlive)
    (acquired : s.server.chubby.acquireLock client path mode = some (handled, reply))
    {query : String} (locked : Locked (handled.found query)) :
    ∃ holder, handled.Holds query holder ∧
      s.lapse (.acquireLock client path mode) query holder = false := by
  obtain ⟨found, holds⟩ := acquireLock_effect acquired
  rw [found] at locked
  by_cases taken : query = path ∧ acquireDecision (s.server.chubby.hasSession client)
      (s.server.chubby.found path) mode = .put
  · have granted : s.server.chubby.grants client path mode = true := by
      unfold ChubbyImpl.grants
      rw [taken.2]
    refine ⟨client, (holds query client).mpr (.inl ⟨taken.1, rfl, granted⟩), ?_⟩
    simp [lapse, taken.1, granted]
  · rw [if_neg taken] at locked
    obtain ⟨holder, held, kept⟩ := alive query locked
    refine ⟨holder, (holds query holder).mpr (.inr held), ?_⟩
    simp [lapse, kept]

theorem HeldAlive.step (alive : s.HeldAlive) (taken : s.step request = some next) : next.HeldAlive := by
  obtain ⟨served, lapsed⟩ := step_eq_some.mp taken
  intro query locked
  rw [lapsed]
  cases request with
  | acquireLock client path mode =>
      obtain ⟨⟨handled, reply⟩, acquired, same⟩ := Option.map_eq_some_iff.mp served
      rw [← same] at locked ⊢
      exact alive.acquire acquired locked
  | keepAlive client now =>
      have stepped : s.server.step (.keepAlive client now) = some next.server := served
      have outcome := Timed.step_outcome stepped
      generalize next.server.chubby = after at outcome locked
      cases outcome with
      | renewed => exact alive query locked
  | releaseLock client path =>
      have stepped : s.server.step (.releaseLock client path) = some next.server := served
      have outcome := Timed.step_outcome stepped
      generalize next.server.chubby = after at outcome locked
      cases outcome with
      | releaseAborted aborts => exact alive query locked
      | notLocked unlocked => exact alive query locked
      | @freed _ _ stored was puts =>
          obtain ⟨map, found⟩ := ChubbyImpl.put_database puts
          have there : (stored.eraseLock path client).found query = stored.found query := rfl
          rw [there, found] at locked
          split at locked
          · exact absurd locked (Vacant.not_locked (.inr rfl))
          next different =>
            obtain ⟨holder, held, kept⟩ := alive query locked
            refine ⟨holder, ChubbyImpl.eraseLock_holds.mpr ⟨fun same => different same.1, ?_⟩, kept⟩
            unfold ChubbyImpl.Holds
            rw [map]
            exact held
  | checkAndExpireLeases now order =>
      have stepped : s.server.step (.checkAndExpireLeases now order) = some next.server := served
      have outcome := Timed.step_outcome stepped
      generalize next.server.chubby = after at outcome locked
      cases outcome with
      | expired member released =>
          obtain ⟨map, found⟩ := ChubbyImpl.expireClients_database released
          rw [found] at locked
          split at locked
          · exact absurd locked (Vacant.not_locked (.inr rfl))
          next untouched =>
            obtain ⟨holder, held, kept⟩ := alive query locked
            refine ⟨holder, ?_, ?_⟩
            · unfold ChubbyImpl.Holds
              rw [map]
              exact held
            · have outside : holder ∉ order := fun expired =>
                untouched ⟨⟨holder, expired, held⟩, locked⟩
              simp [lapse, outside, kept]

/-- A request for known modes leaves known values only. -/
theorem plain_step (plain : Plain s.server.chubby) (allowed : s.AsksKnown request)
    (taken : s.step request = some next) : Plain next.server.chubby := by
  obtain ⟨served, _⟩ := step_eq_some.mp taken
  cases request with
  | acquireLock client path mode =>
      obtain ⟨⟨handled, reply⟩, acquired, same⟩ := Option.map_eq_some_iff.mp served
      rw [← same]
      intro query
      show Vacant (handled.found query) ∨ Locked (handled.found query)
      rw [(acquireLock_effect acquired).1]
      split
      next taken =>
        obtain known | ⟨_, free⟩ := allowed (acquireDecision_put taken.2).1
        · exact .inr known
        · rw [free]
          exact .inl (.inr rfl)
      · exact plain query
  | keepAlive client now =>
      have stepped : s.server.step (.keepAlive client now) = some next.server := served
      exact plain.outcome (Timed.step_outcome stepped)
  | releaseLock client path =>
      have stepped : s.server.step (.releaseLock client path) = some next.server := served
      exact plain.outcome (Timed.step_outcome stepped)
  | checkAndExpireLeases now order =>
      have stepped : s.server.step (.checkAndExpireLeases now order) = some next.server := served
      exact plain.outcome (Timed.step_outcome stepped)

theorem answered_of_known (plain : Plain s.server.chubby) (allowed : s.AsksKnown request)
    {response : LockResponse} (replied : s.server.chubby.reply request = some (.ok response)) :
    response.success = true ∨ response.errorMessage ≠ "" := by
  cases request with
  | acquireLock client path mode =>
      obtain ⟨handled, answer, acquired, _, answers⟩ :=
        acquireLock_database s.server.chubby client path mode
      simp only [ChubbyImpl.reply, acquired, Option.map_some, Option.some.injEq, Except.ok.injEq] at replied
      subst replied
      refine answers.mpr fun open_ => ?_
      obtain ⟨session, found, unknown⟩ := (acquireDecision_unanswered (plain path)).mp open_
      obtain known | ⟨absent, _⟩ := allowed session
      · exact unknown known
      · exact found absent
  | releaseLock client path =>
      obtain ⟨⟨handled, reply⟩, released, same⟩ := Option.map_eq_some_iff.mp replied
      dsimp only at same
      subst same
      exact releaseLock_answered (plain path) released
  | keepAlive client now => cases replied
  | checkAndExpireLeases now order => cases replied

/-- A path whose holders have all lapsed is vacant, so it can be taken. -/
theorem acquirable_of_lapsed (plain : Plain s.server.chubby) (alive : s.HeldAlive) {path : String}
    (lapsed : ∀ client, s.server.chubby.Holds path client → s.lapsed path client = true) :
    s.Acquirable path := by
  have vacant : Vacant (s.server.chubby.found path) := by
    refine (plain path).resolve_right fun locked => ?_
    obtain ⟨client, holds, kept⟩ := alive path locked
    rw [lapsed client holds] at kept
    cases kept
  intro client mode session
  obtain ⟨next, response, acquired, succeeds, _⟩ :=
    acquireLock_database s.server.chubby client path mode.text
  exact ⟨next, response, acquired, succeeds.mpr (grants_vacant vacant session mode)⟩

/-- One request leaves nothing wedged exactly when it asks for a known mode. -/
theorem unwedged_step (plain : Plain s.server.chubby) (alive : s.HeldAlive)
    (taken : s.step request = some next) : s.Unwedged request next ↔ s.AsksKnown request := by
  constructor
  · intro unwedged
    cases request with
    | acquireLock client path mode =>
        intro session
        by_contra unknown
        obtain ⟨odd, other⟩ := not_or.mp unknown
        obtain ⟨served, _⟩ := step_eq_some.mp taken
        obtain ⟨⟨handled, reply⟩, acquired, same⟩ := Option.map_eq_some_iff.mp served
        cases found : s.server.chubby.found path with
        | none =>
            have stored : next.server.chubby.found path = some mode := by
              rw [← same]
              refine ((acquireLock_effect acquired).1 path).trans (if_pos ⟨rfl, ?_⟩)
              rw [session, found]
              rfl
            obtain free | shared | exclusive := unwedged.plain path mode stored
            · exact other ⟨found, free⟩
            · exact odd (.inl (by rw [shared]))
            · exact odd (.inr (by rw [exclusive]))
        | some value =>
            obtain ⟨_, response, again, _, answers⟩ :=
              acquireLock_database s.server.chubby client path mode
            have answered := unwedged.answered response (by simp [ChubbyImpl.reply, again])
            refine answers.mp answered ((acquireDecision_unanswered (plain path)).mpr ⟨session, ?_, odd⟩)
            rw [found]
            simp
    | keepAlive client now => trivial
    | releaseLock client path => trivial
    | checkAndExpireLeases now order => trivial
  · intro allowed
    have after := plain_step plain allowed taken
    exact ⟨plain_iff.mp after, fun response replied => answered_of_known plain allowed replied,
      fun path lapsed => acquirable_of_lapsed after (alive.step taken) lapsed⟩

/-- No request of a run leaves anything wedged exactly when each of them asks for a known mode. -/
theorem unwedged_iff {slotNumber : Int} {requests : List ClientRequest} {final : Serving}
    (ran : run step (initial slotNumber) requests = some final) :
    EveryStep step Unwedged (initial slotNumber) requests ↔
      Guarded step AsksKnown (initial slotNumber) requests := by
  refine everyStep_iff_guarded_of_invariant (fun s => Plain s.server.chubby ∧ s.HeldAlive) ?_ ?_ ?_ ran
  · rintro s request next ⟨plain, alive⟩ taken
    exact unwedged_step plain alive taken
  · rintro s request next ⟨plain, alive⟩ allowed taken
    exact ⟨plain_step plain allowed taken, alive.step taken⟩
  · refine ⟨plain_initial slotNumber, fun path locked => ?_⟩
    exact absurd locked (Vacant.not_locked (.inl rfl))

/-- A client takes a path, loses its lease, comes back and takes the path in the other mode. -/
def takenAgain : List ClientRequest :=
  [.keepAlive "1" 0, .acquireLock "1" "x" "SHARED", .checkAndExpireLeases 12000 ["1"],
    .keepAlive "1" 12000, .acquireLock "1" "x" "EXCLUSIVE"]

theorem unwedged_iff_takenAgain : ∃ final : Serving, run step (initial 0) takenAgain = some final ∧
    EveryStep step Unwedged (initial 0) takenAgain := by
  obtain ⟨final, ran, _⟩ := (Option.any_eq_true _ _).mp (by decide :
    (run step (initial 0) takenAgain).any (fun _ => true) = true)
  exact ⟨final, ran, (unwedged_iff ran).mpr (by decide)⟩

/-- A client asks for an unknown mode on a fresh path and loses its lease. -/
def oddMode : List ClientRequest :=
  [.keepAlive "1" 0, .acquireLock "1" "x" "shared", .checkAndExpireLeases 12000 ["1"]]

/-- The unknown mode stays in the database; the path can be neither acquired nor released, and no
answer gives a reason. -/
theorem path_wedged : ∃ s final : Serving, run step (initial 0) oddMode = some s ∧
    s.step (.keepAlive "2" 12000) = some final ∧
    final.server.chubby.found "x" = some "shared" ∧ final.lapsed "x" "1" = true ∧
    final.server.chubby.reply (.acquireLock "2" "x" "EXCLUSIVE") =
      some (.ok ⟨false, "", leaderAddress 1 0⟩) ∧
    final.server.chubby.reply (.releaseLock "1" "x") = some (.ok ⟨false, "", leaderAddress 1 0⟩) ∧
    ¬ EveryStep step Unwedged (initial 0) (oddMode ++ [.keepAlive "2" 12000]) := by
  obtain ⟨s, ran, checked⟩ := (Option.any_eq_true _ _).mp (by decide :
    (run step (initial 0) oddMode).any (fun s => (s.step (.keepAlive "2" 12000)).any fun final =>
      decide (final.server.chubby.found "x" = some "shared" ∧ final.lapsed "x" "1" = true ∧
        final.server.chubby.reply (.acquireLock "2" "x" "EXCLUSIVE") =
          some (.ok ⟨false, "", leaderAddress 1 0⟩) ∧
        final.server.chubby.reply (.releaseLock "1" "x") =
          some (.ok ⟨false, "", leaderAddress 1 0⟩))) = true)
  obtain ⟨final, taken, shown⟩ := (Option.any_eq_true _ _).mp checked
  obtain ⟨stored, lapsed, acquires, releases⟩ := of_decide_eq_true shown
  refine ⟨s, final, ran, taken, stored, lapsed, acquires, releases, fun every => ?_⟩
  have known := (every.last ran taken).plain "x" "shared" stored
  exact absurd known (by decide)

end Serving

end Chubby.Lock
