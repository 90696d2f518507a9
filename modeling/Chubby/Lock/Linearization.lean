/-
This file proves when the interleaved handlers answer and change the server as whole handlers would.
-/

import Chubby.Library.Commits
import Chubby.Library.Places
import Chubby.Lock.Interleaving

namespace Chubby.Lock

open Chubby.Library

namespace ChubbyImpl

/-- What an abstract `Put` leaves behind. -/
def store (s : ChubbyImpl Database) (path mode : String) : ChubbyImpl Database :=
  { s with paxosService :=
    { s.paxosService with contents := Function.update s.paxosService.contents path (some mode) } }

theorem put_eq_store (s : ChubbyImpl Database) (path mode : String) :
    s.put path mode = some (s.store path mode) := rfl

theorem store_found (s : ChubbyImpl Database) (path mode query : String) :
    (s.store path mode).found query = if query = path then some mode else s.found query :=
  Function.update_apply _ _ _ _

end ChubbyImpl

namespace LockThread

def operation (thread : LockThread) : ExpiryLabel :=
  match thread.task with
  | .acquire mode => .acquireLock thread.client thread.path mode
  | .release => .releaseLock thread.client thread.path

def request (thread : LockThread) : ClientRequest :=
  match thread.task with
  | .acquire mode => .acquireLock thread.client thread.path mode
  | .release => .releaseLock thread.client thread.path

/-- The branch that the whole handler takes in this state. -/
def wholeDecision (thread : LockThread) (s : ChubbyImpl Database) : Decision :=
  match thread.task with
  | .acquire mode => acquireDecision (s.hasSession thread.client) (s.found thread.path) mode
  | .release => releaseDecision (s.found thread.path)

/-- What the whole handler leaves behind when it takes the branch. -/
def effect (thread : LockThread) (s : ChubbyImpl Database) (decision : Decision) : ChubbyImpl Database :=
  match thread.task, decision with
  | .acquire mode, .put => (s.nextSlot.store thread.path mode).insertLock thread.path thread.client
  | .acquire _, .join => s.nextSlot.insertLock thread.path thread.client
  | .acquire _, _ => s.nextSlot
  | .release, .put => (s.store thread.path "FREE").eraseLock thread.path thread.client
  | .release, _ => s

end LockThread

/-- The fields of a response that a branch sets. -/
def Decision.outcome : Decision → Bool × String
  | .put | .join => (true, "NO_ERROR")
  | .refuse message => (false, message)
  | .unanswered => (false, "")

section Handlers

variable {thread : LockThread} {s : ChubbyImpl Database} {decision : Decision}

/-- A whole handler takes its branch and replies with the outcome of it. -/
theorem perform_operation {e : Expiry} (chosen : thread.wholeDecision e.chubby = decision) :
    e.step thread.operation = some { e with chubby := thread.effect e.chubby decision } ∧
      e.chubby.reply thread.request =
        some (.ok ⟨decision.outcome.1, decision.outcome.2, e.chubby.currentLeader⟩) := by
  obtain ⟨client, path, task, stage⟩ := thread
  cases task with
  | acquire mode =>
      have branch : acquireDecision (e.chubby.nextSlot.hasSession client) (e.chubby.nextSlot.found path) mode =
          decision := chosen
      have open_ : ¬ PaxosService.leaderElectionHappened e.chubby.paxosService = true := Bool.false_ne_true
      simp only [LockThread.operation, LockThread.request, Expiry.step, ChubbyImpl.reply,
        ChubbyImpl.acquireLock, if_neg open_, branch]
      cases decision <;> exact ⟨rfl, rfl⟩
  | release =>
      have branch : releaseDecision (e.chubby.found path) = decision := chosen
      have open_ : ¬ PaxosService.leaderElectionHappened e.chubby.paxosService = true := Bool.false_ne_true
      simp only [LockThread.operation, LockThread.request, Expiry.step, ChubbyImpl.reply,
        ChubbyImpl.releaseLock, if_neg open_, branch]
      cases decision <;> first | exact ⟨rfl, rfl⟩ | exact absurd branch releaseDecision_ne_join

theorem effect_found (query : String) : (thread.effect s decision).found query =
    if query = thread.path ∧ decision = .put then some thread.task.putValue else s.found query := by
  obtain ⟨client, path, task, stage⟩ := thread
  cases task <;> cases decision <;>
    simp [LockThread.effect, LockTask.putValue, ChubbyImpl.insertLock, ChubbyImpl.eraseLock,
      ChubbyImpl.nextSlot, ChubbyImpl.store, ChubbyImpl.found, PaxosService.get, Function.update_apply]

@[simp] theorem effect_leases : (thread.effect s decision).clientLeaseMap = s.clientLeaseMap := by
  unfold LockThread.effect
  split <;> rfl

@[simp] theorem effect_view :
    (thread.effect s decision).paxosService.view = s.paxosService.view := by
  unfold LockThread.effect
  split <;> rfl

theorem effect_locks (keeps : decision ≠ .put) (adds : decision ≠ .join) :
    (thread.effect s decision).clientLockMap = s.clientLockMap := by
  unfold LockThread.effect
  split <;> first | rfl | contradiction

@[simp] theorem record_found (query : String) : (thread.record s).found query = s.found query := by
  unfold LockThread.record
  split <;> rfl

@[simp] theorem record_leases : (thread.record s).clientLeaseMap = s.clientLeaseMap := by
  unfold LockThread.record
  split <;> rfl

@[simp] theorem record_view : (thread.record s).paxosService.view = s.paxosService.view := by
  unfold LockThread.record
  split <;> rfl

/-- The lock map changes alike for equal lock maps. -/
theorem effect_locks_record {t : ChubbyImpl Database} (same : s.clientLockMap = t.clientLockMap)
    (adds : decision = .put ∨ decision = .join ∧ thread.task ≠ .release) :
    (thread.effect s decision).clientLockMap = (thread.record t).clientLockMap := by
  obtain ⟨client, path, task, stage⟩ := thread
  obtain rfl | ⟨rfl, asks⟩ := adds
  · cases task with
    | acquire mode => exact congrArg (Std.TreeSet.insert · (path, client)) same
    | release => exact congrArg (Std.TreeSet.erase · (path, client)) same
  · cases task with
    | acquire mode => exact congrArg (Std.TreeSet.insert · (path, client)) same
    | release => exact absurd rfl asks

@[simp] theorem effect_leader : (thread.effect s decision).currentLeader = s.currentLeader := by
  unfold LockThread.effect
  split <;> rfl

end Handlers

namespace Interleaved

/-- A handler commits where its answer is settled, and the expiry thread where a section of it ends. -/
def commits (s : Interleaved) : SectionLabel → Option ExpiryLabel
  | .keepAlive client deadline now => some (.keepAlive client deadline now)
  | .checkSession k => s.threads[k]?.bind fun thread =>
      if s.chubby.hasSession thread.client then none else some thread.operation
  | .readValue k => s.threads[k]?.bind fun thread =>
      match thread.task.decision (s.chubby.found thread.path) with
      | .put | .join => none
      | .refuse _ | .unanswered => some thread.operation
  | .record k => s.threads[k]?.map LockThread.operation
  | .collect now order => some (.collect now order)
  | .lookUp => some .lookUp
  | .freeKey now => some (.freeKey now)
  | .acquireLock _ _ _ | .releaseLock _ _ | .lock _ | .put _ | .answer _ | .lockKey | .readKey
  | .unlockKey => none

end Interleaved

/-- The interleaved server beside the server whose handlers run as a whole at their commits. -/
abbrev Linearized := Committed Interleaved Expiry

namespace Linearized

def initial (slotNumber : Int) : Linearized := ⟨.initial slotNumber, .initial slotNumber⟩

def step : Linearized → SectionLabel → Option Linearized :=
  commitStep Interleaved.step Interleaved.commits Expiry.step

/-- A handler has changed the value of the path and not yet the lock map. -/
def Storing (s : Linearized) (path : String) : Prop :=
  ∃ (k : Nat) (thread : LockThread), s.fine.threads[k]? = some thread ∧ thread.path = path ∧
    thread.stage = .stored

/-- The two servers agree on everything but the values that a handler is storing. -/
structure Matches (s : Linearized) : Prop where
  clock : s.atomic.clock = s.fine.clock
  locks : s.atomic.chubby.clientLockMap = s.fine.chubby.clientLockMap
  leases : s.atomic.chubby.clientLeaseMap = s.fine.chubby.clientLeaseMap
  view : s.atomic.chubby.paxosService.view = s.fine.chubby.paxosService.view
  expiredClients : s.atomic.expiredClients = s.fine.expiredClients
  clientId : s.atomic.clientId = s.fine.clientId
  lockedKeys : s.atomic.lockedKeys = s.fine.lockedKeys
  found : ∀ path, ¬ s.Storing path → s.atomic.chubby.found path = s.fine.chubby.found path

/-- A handler that settles its answer in this step gives the answer of the whole handler. -/
def Answers (s next : Linearized) : Prop :=
  ∀ (k : Nat) (thread after : LockThread) (success : Bool) (message : String),
    s.fine.threads[k]? = some thread → next.fine.threads[k]? = some after →
    after.stage = .settled success message → thread.stage ≠ after.stage →
      s.atomic.chubby.reply thread.request = some (.ok ⟨success, message, s.fine.chubby.currentLeader⟩)

/-- The whole handlers perform what the step commits, and give the same answer and the same table. -/
structure Agrees (s : Linearized) (label : SectionLabel) (next : Linearized) : Prop where
  performs : Performs Interleaved.commits Expiry.step s label next
  answers : s.Answers next
  tables : next.Matches

/-- An acquire that has found a session commits while its client still has one. -/
def SessionStands (s : Linearized) : SectionLabel → Prop
  | .checkSession _ => True
  | label => match s.fine.commits label with
      | some (.acquireLock client _ _) => s.fine.chubby.hasSession client = true
      | _ => True

instance (s : Linearized) : DecidablePred s.SessionStands := fun label => by
  unfold SessionStands
  split
  · exact .isTrue trivial
  · split
    · infer_instance
    · exact .isTrue trivial

/-- The threads respect the key locks, and a handler that has read a value still finds it. -/
structure Aligned (s : Linearized) : Prop where
  tables : s.Matches
  exclusive : ∀ {k j : Nat} {first second : LockThread}, s.fine.threads[k]? = some first →
    s.fine.threads[j]? = some second → first.path = second.path → first.stage.holds = true →
      second.stage.holds = true → k = j
  apart : ∀ {k : Nat} {thread : LockThread}, s.fine.threads[k]? = some thread →
    thread.stage.holds = true → s.fine.expiryHolds thread.path = false
  decided : ∀ {k : Nat} {thread : LockThread} {decision : Decision}, s.fine.threads[k]? = some thread →
    thread.stage = .decided decision →
      thread.task.decision (s.fine.chubby.found thread.path) = decision ∧
        (decision = .put ∨ decision = .join)
  stored : ∀ {k : Nat} {thread : LockThread}, s.fine.threads[k]? = some thread → thread.stage = .stored →
    thread.task.decision (s.atomic.chubby.found thread.path) = .put ∧
      s.fine.chubby.found thread.path = some thread.task.putValue
  read : ∀ {locked : Bool}, s.fine.keyStage = .found locked → ∀ key ∈ s.fine.lockedKeys.head?,
    locked = decide (Locked (s.fine.chubby.found key))

section Threads

variable {s next : Linearized} {k : Nat} {thread : LockThread}

/-- Only the handler that has the lock of a path can be storing a value there. -/
theorem Aligned.not_storing (aligned : s.Aligned) (there : s.fine.threads[k]? = some thread)
    (held : thread.stage.holds = true) (unstored : thread.stage ≠ .stored) : ¬ s.Storing thread.path := by
  rintro ⟨j, other, found, same, stores⟩
  have one := aligned.exclusive found there same (by rw [stores]; rfl) held
  subst one
  rw [there] at found
  cases found
  exact unstored stores

/-- While no value of a path is being stored, both servers find the same one. -/
theorem Aligned.same_found (aligned : s.Aligned) (there : s.fine.threads[k]? = some thread)
    (held : thread.stage.holds = true) (unstored : thread.stage ≠ .stored) :
    s.atomic.chubby.found thread.path = s.fine.chubby.found thread.path :=
  aligned.tables.found _ (aligned.not_storing there held unstored)

/-- A handler that has the lock of its path may change the value there. -/
theorem Aligned.moves (aligned : s.Aligned) (there : s.fine.threads[k]? = some thread)
    (held : thread.stage.holds = true) {stage : ThreadStage} {chubby atomic : ChubbyImpl Database}
    (others : ∀ query, query ≠ thread.path → chubby.found query = s.fine.chubby.found query ∧
      atomic.found query = s.atomic.chubby.found query)
    (locks : atomic.clientLockMap = chubby.clientLockMap)
    (leases : atomic.clientLeaseMap = chubby.clientLeaseMap)
    (view : atomic.paxosService.view = chubby.paxosService.view)
    (settles : stage ≠ .stored → atomic.found thread.path = chubby.found thread.path)
    (decides : ∀ decision, stage = .decided decision →
      thread.task.decision (chubby.found thread.path) = decision ∧ (decision = .put ∨ decision = .join))
    (stores : stage = .stored → thread.task.decision (atomic.found thread.path) = .put ∧
      chubby.found thread.path = some thread.task.putValue) :
    Aligned ⟨{ s.fine with chubby }.setStage k thread stage, { s.atomic with chubby := atomic }⟩ := by
  have elsewhere {j : Nat} {other : LockThread} (found : s.fine.threads[j]? = some other) (moved : j ≠ k)
      (holds : other.stage.holds = true) : other.path ≠ thread.path := by
    intro same
    exact moved (aligned.exclusive found there same holds held)
  refine ⟨?_, ?_, ?_, ?_, ?_, ?_⟩
  · refine ⟨aligned.tables.clock, locks, leases, view, aligned.tables.expiredClients,
      aligned.tables.clientId, aligned.tables.lockedKeys, fun path quiet => ?_⟩
    by_cases same : path = thread.path
    · rw [same]
      refine settles fun stored => quiet ⟨k, { thread with stage }, ?_, same.symm, stored⟩
      exact place_set_self there
    · show atomic.found path = chubby.found path
      rw [(others path same).1, (others path same).2]
      refine aligned.tables.found path ?_
      rintro ⟨j, other, found, rfl, stored⟩
      have moved : j ≠ k := by
        rintro rfl
        rw [there] at found
        cases found
        exact same rfl
      exact quiet ⟨j, other, (place_set_other moved).trans found, rfl, stored⟩
  · intro i j first second one two same holds holds'
    obtain ⟨moved, early⟩ | ⟨rfl, rfl⟩ := place_set_cases one
    · obtain ⟨_, late⟩ | ⟨rfl, rfl⟩ := place_set_cases two
      · exact aligned.exclusive early late same holds holds'
      · exact absurd same (elsewhere early moved holds)
    · obtain ⟨moved, late⟩ | ⟨rfl, _⟩ := place_set_cases two
      · exact absurd same.symm (elsewhere late moved holds')
      · rfl
  · intro j other found holds
    obtain ⟨_, old⟩ | ⟨_, same⟩ := place_set_cases found
    · exact aligned.apart old holds
    · rw [same]
      show s.fine.expiryHolds thread.path = false
      exact aligned.apart there held
  · intro j other decision found stands
    obtain ⟨moved, found⟩ | ⟨rfl, rfl⟩ := place_set_cases found
    · obtain ⟨chosen, active⟩ := aligned.decided found stands
      have away := elsewhere found moved (by rw [stands]; rfl)
      refine ⟨?_, active⟩
      show other.task.decision (chubby.found other.path) = decision
      rw [(others _ away).1]
      exact chosen
    · exact decides decision stands
  · intro j other found stands
    obtain ⟨moved, found⟩ | ⟨rfl, rfl⟩ := place_set_cases found
    · obtain ⟨chosen, stored⟩ := aligned.stored found stands
      have away := elsewhere found moved (by rw [stands]; rfl)
      refine ⟨?_, ?_⟩
      · show other.task.decision (atomic.found other.path) = .put
        rw [(others _ away).2]
        exact chosen
      · show chubby.found other.path = some other.task.putValue
        rw [(others _ away).1]
        exact stored
    · exact stores stands
  · intro locked stands key first
    have away : key ≠ thread.path := by
      rintro rfl
      have apart := aligned.apart there held
      unfold Interleaved.expiryHolds at apart
      rw [show s.fine.keyStage = .found locked from stands] at apart
      exact of_decide_eq_false apart first
    show locked = decide (Locked (chubby.found key))
    rw [aligned.read stands key first, (others key away).1]

/-- A handler gets a lock that nobody has. -/
theorem Aligned.begins (aligned : s.Aligned) (there : s.fine.threads[k]? = some thread)
    (waits : thread.stage = .waiting) (free : s.fine.keyFree thread.path = true)
    {chubby : ChubbyImpl Database} (found : ∀ query, chubby.found query = s.fine.chubby.found query)
    (locks : chubby.clientLockMap = s.fine.chubby.clientLockMap)
    (leases : chubby.clientLeaseMap = s.fine.chubby.clientLeaseMap)
    (view : chubby.paxosService.view = s.fine.chubby.paxosService.view) :
    Aligned ⟨{ s.fine with chubby }.setStage k thread .locked, s.atomic⟩ := by
  unfold Interleaved.keyFree at free
  rw [Bool.and_eq_true, List.all_eq_true, Bool.not_eq_true'] at free
  obtain ⟨threads, expiry⟩ := free
  have elsewhere {j : Nat} {other : LockThread} (place : s.fine.threads[j]? = some other)
      (holds : other.stage.holds = true) : other.path ≠ thread.path := by
    have apart := threads other (List.mem_of_getElem? place)
    rw [holds] at apart
    simpa using apart
  refine ⟨?_, ?_, ?_, ?_, ?_, ?_⟩
  · refine ⟨aligned.tables.clock, aligned.tables.locks.trans locks.symm, aligned.tables.leases.trans leases.symm,
      aligned.tables.view.trans view.symm, aligned.tables.expiredClients, aligned.tables.clientId,
      aligned.tables.lockedKeys, fun path quiet => ?_⟩
    refine (aligned.tables.found path ?_).trans (found path).symm
    rintro ⟨j, other, place, same, stored⟩
    have moved : j ≠ k := by
      rintro rfl
      rw [there] at place
      cases place
      rw [waits] at stored
      cases stored
    exact quiet ⟨j, other, (place_set_other moved).trans place, same, stored⟩
  · intro i j first second one two same holds holds'
    obtain ⟨_, early⟩ | ⟨rfl, rfl⟩ := place_set_cases one
    · obtain ⟨_, late⟩ | ⟨rfl, rfl⟩ := place_set_cases two
      · exact aligned.exclusive early late same holds holds'
      · exact absurd same (elsewhere early holds)
    · obtain ⟨_, late⟩ | ⟨rfl, _⟩ := place_set_cases two
      · exact absurd same.symm (elsewhere late holds')
      · rfl
  · intro j other place holds
    obtain ⟨_, place⟩ | ⟨rfl, rfl⟩ := place_set_cases place
    · exact aligned.apart place holds
    · exact expiry
  · intro j other decision place stands
    obtain ⟨_, place⟩ | ⟨rfl, rfl⟩ := place_set_cases place
    · obtain ⟨chosen, active⟩ := aligned.decided place stands
      exact ⟨(congrArg _ (found _)).trans chosen, active⟩
    · cases stands
  · intro j other place stands
    obtain ⟨_, place⟩ | ⟨rfl, rfl⟩ := place_set_cases place
    · obtain ⟨chosen, stored⟩ := aligned.stored place stands
      exact ⟨chosen, (found _).trans stored⟩
    · cases stands
  · intro locked stands key first
    show locked = decide (Locked (chubby.found key))
    rw [aligned.read stands key first, found key]

/-- The step agrees with the whole handlers exactly when it meets the condition, and then it keeps the
threads aligned. -/
def Kept (s : Linearized) (label : SectionLabel) (next : Linearized) : Prop :=
  (s.Agrees label next ↔ s.SessionStands label) ∧ (s.SessionStands label → next.Aligned)

theorem kept_of_aligned {label : SectionLabel} (stands : s.SessionStands label) (aligned : next.Aligned)
    (performs : Performs Interleaved.commits Expiry.step s label next) (answers : s.Answers next) :
    s.Kept label next :=
  ⟨iff_of_true ⟨performs, answers, aligned.tables⟩ stands, fun _ => aligned⟩

theorem answers_of_same (same : next.fine.threads = s.fine.threads) : s.Answers next := by
  intro j other after success message before there _ moved
  rw [same, before] at there
  cases there
  exact absurd rfl moved

/-- Only the handler that moves can settle its answer. -/
theorem answers_of_set (there : s.fine.threads[k]? = some thread) {stage : ThreadStage}
    (same : next.fine.threads = s.fine.threads.set k { thread with stage })
    (reply : ∀ success message, stage = .settled success message →
      s.atomic.chubby.reply thread.request = some (.ok ⟨success, message, s.fine.chubby.currentLeader⟩)) :
    s.Answers next := by
  intro j other after success message before found settles moved
  rw [same] at found
  obtain ⟨_, old⟩ | ⟨rfl, rfl⟩ := place_set_cases found
  · rw [before] at old
    cases old
    exact absurd rfl moved
  · rw [there] at before
    cases before
    exact reply success message settles

/-- A handler of `AcquireLock` needs a session. -/
def Entitled (thread : LockThread) (chubby : ChubbyImpl Database) : Prop :=
  match thread.task with
  | .acquire _ => chubby.hasSession thread.client = true
  | .release => True

theorem wholeDecision_entitled {chubby : ChubbyImpl Database} (entitled : Entitled thread chubby) :
    thread.wholeDecision chubby = thread.task.decision (chubby.found thread.path) := by
  obtain ⟨client, path, task, stage⟩ := thread
  cases task with
  | acquire mode => exact congrArg (acquireDecision · _ mode) entitled
  | release => rfl

theorem wholeDecision_unentitled {chubby : ChubbyImpl Database} (refused : ¬ Entitled thread chubby) :
    thread.wholeDecision chubby = .refuse "NO_CLIENT_SESSION" := by
  obtain ⟨client, path, task, stage⟩ := thread
  cases task with
  | acquire mode =>
      have absent : chubby.hasSession client = false := by simpa [Entitled] using refused
      exact congrArg (acquireDecision · _ mode) absent
  | release => exact absurd trivial refused

/-- No branch of a client with a session says that it has none. -/
theorem outcome_entitled (task : LockTask) (found : Option String) :
    (task.decision found).outcome ≠ (false, "NO_CLIENT_SESSION") := by
  cases task <;> cases found <;>
    grind [LockTask.decision, acquireDecision, releaseDecision, Decision.outcome]

theorem Matches.currentLeader (tables : s.Matches) :
    s.atomic.chubby.currentLeader = s.fine.chubby.currentLeader :=
  congrArg (leaderAddress 1) tables.view

theorem Matches.hasSession (tables : s.Matches) (client : String) :
    s.atomic.chubby.hasSession client = s.fine.chubby.hasSession client := by
  unfold ChubbyImpl.hasSession
  rw [tables.leases]

theorem Matches.entitled (tables : s.Matches) (thread : LockThread) :
    Entitled thread s.atomic.chubby ↔ Entitled thread s.fine.chubby := by
  unfold Entitled
  rw [tables.hasSession]

/-- A commit of a handler that is entitled to its branch is the whole handler, and another one is not. -/
theorem Aligned.commits (aligned : s.Aligned) {label : SectionLabel}
    (there : s.fine.threads[k]? = some thread) (held : thread.stage.holds = true)
    (unsettled : ∀ success message, thread.stage ≠ .settled success message) {decision : Decision}
    (chosen : thread.task.decision (s.atomic.chubby.found thread.path) = decision)
    {chubby : ChubbyImpl Database}
    (found : chubby.found thread.path = (thread.effect s.atomic.chubby decision).found thread.path)
    (others : ∀ query, query ≠ thread.path → chubby.found query = s.fine.chubby.found query)
    (locks : (thread.effect s.atomic.chubby decision).clientLockMap = chubby.clientLockMap)
    (leases : chubby.clientLeaseMap = s.fine.chubby.clientLeaseMap)
    (view : (thread.effect s.atomic.chubby decision).paxosService.view = chubby.paxosService.view)
    (named : s.fine.commits label = some thread.operation)
    (fine : next.fine =
      { s.fine with chubby }.setStage k thread (.settled decision.outcome.1 decision.outcome.2))
    (atomic : next.atomic = (Expiry.step s.atomic thread.operation).getD s.atomic)
    (stands_iff : s.SessionStands label ↔ Entitled thread s.fine.chubby) : s.Kept label next := by
  by_cases entitled : Entitled thread s.fine.chubby
  · have whole := (wholeDecision_entitled ((aligned.tables.entitled thread).mpr entitled)).trans chosen
    obtain ⟨performed, replied⟩ := perform_operation whole
    rw [performed] at atomic
    have kept : Aligned
        ⟨{ s.fine with chubby }.setStage k thread (.settled decision.outcome.1 decision.outcome.2),
          { s.atomic with chubby := thread.effect s.atomic.chubby decision }⟩ := by
      refine aligned.moves there held (fun query away => ⟨others query away, ?_⟩) locks ?_ view
        (fun _ => found.symm) nofun nofun
      · rw [effect_found, if_neg fun both => away both.1]
      · rw [effect_leases, leases, aligned.tables.leases]
    obtain ⟨nextFine, nextAtomic⟩ := next
    subst fine
    subst atomic
    refine kept_of_aligned (stands_iff.mpr entitled) kept ?_ (answers_of_set there rfl ?_)
    · unfold Performs
      rw [named]
      exact performed
    · rintro success message same
      cases same
      rw [replied, aligned.tables.currentLeader]
  · refine ⟨iff_of_false (fun agrees => ?_) fun stands => entitled (stands_iff.mp stands),
      fun stands => absurd (stands_iff.mp stands) entitled⟩
    have whole := wholeDecision_unentitled fun also => entitled ((aligned.tables.entitled thread).mp also)
    have after : next.fine.threads[k]? =
        some { thread with stage := .settled decision.outcome.1 decision.outcome.2 } := by
      rw [fine]
      exact place_set_self there
    have replied := agrees.answers k thread _ _ _ there after rfl (unsettled _ _)
    rw [(perform_operation whole).2] at replied
    have same := Except.ok.inj (Option.some.inj replied)
    apply outcome_entitled thread.task (s.atomic.chubby.found thread.path)
    rw [chosen]
    exact Prod.ext (congrArg LockResponse.success same).symm (congrArg LockResponse.errorMessage same).symm

end Threads

section Steps

variable {s next : Linearized} {k : Nat}

/-- A section without a commit leaves the whole handlers where they are. -/
theorem silent_kept {label : SectionLabel} {fine : Interleaved} (silent : s.fine.commits label = none)
    (stands : s.SessionStands label) (taken : s.step label = some next)
    (moved : s.fine.step label = some fine) (aligned : Aligned ⟨fine, s.atomic⟩)
    (answers : s.Answers ⟨fine, s.atomic⟩) : s.Kept label next := by
  obtain ⟨stepped, atomic⟩ := commitStep_rests silent taken
  obtain ⟨nextFine, nextAtomic⟩ := next
  cases stepped.symm.trans moved
  subst atomic
  refine kept_of_aligned stands aligned ?_ answers
  unfold Performs
  rw [silent]

/-- A section with a commit performs it. -/
theorem performed_kept {label : SectionLabel} {op : ExpiryLabel} {fine : Interleaved} {atomic : Expiry}
    (named : s.fine.commits label = some op) (stands : s.SessionStands label)
    (taken : s.step label = some next) (moved : s.fine.step label = some fine)
    (performed : s.atomic.step op = some atomic) (aligned : Aligned ⟨fine, atomic⟩)
    (answers : s.Answers ⟨fine, atomic⟩) : s.Kept label next := by
  obtain ⟨stepped, after⟩ := commitStep_commits named taken
  rw [performed] at after
  obtain ⟨nextFine, nextAtomic⟩ := next
  cases stepped.symm.trans moved
  cases after
  refine kept_of_aligned stands aligned ?_ answers
  unfold Performs
  rw [named]
  exact performed

theorem arrive_kept {label : SectionLabel} (aligned : s.Aligned) {client path : String} {task : LockTask}
    (silent : s.fine.commits label = none) (stands : s.SessionStands label)
    (taken : s.step label = some next) (moved : s.fine.step label = some (s.fine.arrive client path task)) :
    s.Kept label next := by
  have old {j : Nat} {other : LockThread} (place : (s.fine.arrive client path task).threads[j]? = some other)
      (begun : other.stage ≠ .waiting) : s.fine.threads[j]? = some other := by
    obtain before | ⟨_, rfl⟩ := place_concat_cases place
    · exact before
    · exact absurd rfl begun
  have begun_of_holds {other : LockThread} (holds : other.stage.holds = true) : other.stage ≠ .waiting := by
    intro waits
    rw [waits] at holds
    cases holds
  refine silent_kept silent stands taken moved ⟨?_, ?_, ?_, ?_, ?_, aligned.read⟩ ?_
  · refine ⟨aligned.tables.clock, aligned.tables.locks, aligned.tables.leases, aligned.tables.view,
      aligned.tables.expiredClients, aligned.tables.clientId, aligned.tables.lockedKeys, fun query quiet => ?_⟩
    refine aligned.tables.found query ?_
    rintro ⟨j, other, place, same, stores⟩
    have inside := (List.getElem?_eq_some_iff.mp place).1
    exact quiet ⟨j, other, (List.getElem?_append_left inside).trans place, same, stores⟩
  · intro i j first second one two same holds holds'
    exact aligned.exclusive (old one (begun_of_holds holds)) (old two (begun_of_holds holds')) same holds holds'
  · intro j other place holds
    exact aligned.apart (old place (begun_of_holds holds)) holds
  · intro j other decision place stage
    exact aligned.decided (old place (by rw [stage]; nofun)) stage
  · intro j other place stage
    exact aligned.stored (old place (by rw [stage]; nofun)) stage
  · intro j other after success message before place settles changed
    have same := old place (by rw [settles]; nofun)
    rw [before] at same
    cases same
    exact absurd rfl changed

theorem lock_kept (aligned : s.Aligned) (taken : s.step (.lock k) = some next) : s.Kept (.lock k) next := by
  obtain ⟨fine, moved, _⟩ := Option.map_eq_some_iff.mp taken
  have opened := moved
  simp only [Interleaved.step, Interleaved.lock] at opened
  split at opened
  · cases opened
  next thread there =>
    split at opened
    next ready =>
      cases opened
      refine silent_kept rfl trivial taken moved (aligned.begins there ready.1 ready.2 ?_ ?_ ?_ ?_)
        (answers_of_set there rfl nofun)
      all_goals cases thread.task <;> first | exact fun _ => rfl | rfl
    · cases opened

/-- A handler that stores nothing and changes no table stays aligned. -/
theorem Aligned.waits (aligned : s.Aligned) {thread : LockThread} (there : s.fine.threads[k]? = some thread)
    (held : thread.stage.holds = true) (unstored : thread.stage ≠ .stored) {stage : ThreadStage}
    (unstores : stage ≠ .stored) (decides : ∀ decision, stage = .decided decision →
      thread.task.decision (s.fine.chubby.found thread.path) = decision ∧
        (decision = .put ∨ decision = .join)) : Aligned ⟨s.fine.setStage k thread stage, s.atomic⟩ :=
  aligned.moves there held (fun _ _ => ⟨rfl, rfl⟩) aligned.tables.locks aligned.tables.leases
    aligned.tables.view (fun _ => aligned.same_found there held unstored) decides fun stores =>
    absurd stores unstores

theorem checkSession_kept (aligned : s.Aligned) (taken : s.step (.checkSession k) = some next) :
    s.Kept (.checkSession k) next := by
  obtain ⟨fine, moved, _⟩ := Option.map_eq_some_iff.mp taken
  have opened := moved
  simp only [Interleaved.step, Interleaved.checkSession] at opened
  split at opened
  · cases opened
  next thread there =>
    split at opened
    next mode asks locked =>
      have held : thread.stage.holds = true := by rw [locked]; rfl
      have unstored : thread.stage ≠ .stored := by rw [locked]; nofun
      cases opened
      cases session : s.fine.chubby.hasSession thread.client with
      | true =>
          have silent : s.fine.commits (.checkSession k) = none := by
            simp [Interleaved.commits, there, session]
          rw [session, if_pos rfl] at moved
          exact silent_kept silent trivial taken moved (aligned.waits there held unstored nofun nofun)
            (answers_of_set there rfl nofun)
      | false =>
          have named : s.fine.commits (.checkSession k) = some thread.operation := by
            simp [Interleaved.commits, there, session]
          have refused : ¬ Entitled thread s.atomic.chubby := by
            rw [aligned.tables.entitled]
            unfold Entitled
            rw [asks, session]
            exact Bool.false_ne_true
          obtain ⟨performed, replied⟩ := perform_operation (wholeDecision_unentitled refused)
          rw [session, if_neg Bool.false_ne_true] at moved
          have same := aligned.same_found there held unstored
          have unchanged : thread.effect s.atomic.chubby (.refuse "NO_CLIENT_SESSION") =
              s.atomic.chubby.nextSlot := by
            unfold LockThread.effect
            rw [asks]
          rw [unchanged] at performed
          have kept : Aligned ⟨s.fine.setStage k thread (.settled false "NO_CLIENT_SESSION"),
              { s.atomic with chubby := s.atomic.chubby.nextSlot }⟩ :=
            aligned.moves there held (fun _ _ => ⟨rfl, rfl⟩) aligned.tables.locks aligned.tables.leases
              aligned.tables.view (fun _ => same) nofun nofun
          refine performed_kept named trivial taken moved performed kept (answers_of_set there rfl ?_)
          rintro success message stage
          cases stage
          rw [replied, aligned.tables.currentLeader]
          rfl
    · cases opened

/-- Only a section that checks a session can refuse an acquire for the lack of one. -/
theorem stands_iff_entitled {label : SectionLabel} {thread : LockThread}
    (named : s.fine.commits label = some thread.operation) (checked : ∀ j, label ≠ .checkSession j) :
    s.SessionStands label ↔ Entitled thread s.fine.chubby := by
  unfold SessionStands Entitled
  split
  next j => exact absurd rfl (checked j)
  next =>
    rw [named]
    unfold LockThread.operation
    cases thread.task <;> exact Iff.rfl

theorem stands_of_silent {label : SectionLabel} (silent : s.fine.commits label = none) :
    s.SessionStands label := by
  unfold SessionStands
  split
  · trivial
  · rw [silent]
    trivial

theorem Reads.holds {thread : LockThread} (reads : Interleaved.Reads thread) :
    thread.stage.holds = true ∧ thread.stage ≠ .stored ∧
      ∀ success message, thread.stage ≠ .settled success message := by
  unfold Interleaved.Reads at reads
  split at reads
  all_goals
    rw [reads]
    exact ⟨rfl, nofun, nofun⟩

theorem readValue_kept (aligned : s.Aligned) (taken : s.step (.readValue k) = some next) :
    s.Kept (.readValue k) next := by
  obtain ⟨fine, moved, _⟩ := Option.map_eq_some_iff.mp taken
  have opened := moved
  simp only [Interleaved.step, Interleaved.readValue] at opened
  split at opened
  · cases opened
  next thread there =>
    split at opened
    next reads =>
      obtain ⟨held, unstored, unsettled⟩ := Reads.holds reads
      have same := aligned.same_found there held unstored
      have refuses {decision : Decision} (chosen : thread.task.decision (s.fine.chubby.found thread.path) =
          decision) (keeps : decision ≠ .put) (adds : decision ≠ .join)
          (named : s.fine.commits (.readValue k) = some thread.operation)
          (stepped : s.fine.step (.readValue k) =
            some (s.fine.setStage k thread (.settled decision.outcome.1 decision.outcome.2))) :
          s.Kept (.readValue k) next := by
        obtain ⟨performed, atomic⟩ := commitStep_commits named taken
        refine aligned.commits there held unsettled (by rw [same]; exact chosen) ?_ (fun _ _ => rfl) ?_ rfl ?_
          named (Option.some.inj (performed.symm.trans stepped)) atomic
          (stands_iff_entitled named nofun)
        · rw [effect_found, if_neg fun both => keeps both.2, same]
        · rw [effect_locks keeps adds, aligned.tables.locks]
        · rw [effect_view, aligned.tables.view]
      have waits {decision : Decision} (chosen : thread.task.decision (s.fine.chubby.found thread.path) =
          decision) (goes : decision = .put ∨ decision = .join)
          (silent : s.fine.commits (.readValue k) = none)
          (same : fine = s.fine.setStage k thread (.decided decision)) : s.Kept (.readValue k) next := by
        subst same
        refine silent_kept silent (stands_of_silent silent) taken moved
          (aligned.waits there held unstored nofun ?_) (answers_of_set there rfl nofun)
        rintro other stage
        cases stage
        exact ⟨chosen, goes⟩
      cases chosen : thread.task.decision (s.fine.chubby.found thread.path) with
      | put =>
          have silent : s.fine.commits (.readValue k) = none := by
            simp [Interleaved.commits, there, chosen]
          rw [chosen] at opened
          exact waits chosen (.inl rfl) silent (Option.some.inj opened).symm
      | join =>
          have silent : s.fine.commits (.readValue k) = none := by
            simp [Interleaved.commits, there, chosen]
          rw [chosen] at opened
          exact waits chosen (.inr rfl) silent (Option.some.inj opened).symm
      | refuse message =>
          have named : s.fine.commits (.readValue k) = some thread.operation := by
            simp [Interleaved.commits, there, chosen]
          rw [chosen] at opened
          cases opened
          exact refuses chosen (by rintro ⟨⟩) (by rintro ⟨⟩) named moved
      | unanswered =>
          have named : s.fine.commits (.readValue k) = some thread.operation := by
            simp [Interleaved.commits, there, chosen]
          rw [chosen] at opened
          cases opened
          exact refuses chosen (by rintro ⟨⟩) (by rintro ⟨⟩) named moved
    · cases opened

theorem put_kept (aligned : s.Aligned) (taken : s.step (.put k) = some next) : s.Kept (.put k) next := by
  obtain ⟨fine, moved, _⟩ := Option.map_eq_some_iff.mp taken
  have opened := moved
  simp only [Interleaved.step, Interleaved.put] at opened
  split at opened
  · cases opened
  next thread there =>
    split at opened
    next decided =>
      have held : thread.stage.holds = true := by rw [decided]; rfl
      have unstored : thread.stage ≠ .stored := by rw [decided]; nofun
      have chosen := (aligned.decided there decided).1
      rw [← aligned.same_found there held unstored] at chosen
      rw [ChubbyImpl.put_eq_store] at opened
      cases opened
      refine silent_kept rfl trivial taken moved ?_ (answers_of_set there rfl nofun)
      refine aligned.moves there held (fun query away => ⟨?_, rfl⟩) aligned.tables.locks aligned.tables.leases
        aligned.tables.view (absurd rfl) nofun fun _ => ⟨chosen, ?_⟩
      · rw [ChubbyImpl.store_found, if_neg away]
      · rw [ChubbyImpl.store_found, if_pos rfl]
    · cases opened

theorem record_kept (aligned : s.Aligned) (taken : s.step (.record k) = some next) :
    s.Kept (.record k) next := by
  obtain ⟨fine, moved, _⟩ := Option.map_eq_some_iff.mp taken
  have opened := moved
  simp only [Interleaved.step, Interleaved.record] at opened
  split at opened
  · cases opened
  next thread there =>
    have named : s.fine.commits (.record k) = some thread.operation := by
      simp [Interleaved.commits, there]
    obtain ⟨performed, atomic⟩ := commitStep_commits named taken
    have stepped := Option.some.inj (performed.symm.trans moved)
    have stands := stands_iff_entitled named nofun
    split at opened
    next ready =>
      obtain stored | joined := ready
      · obtain ⟨chosen, found⟩ := aligned.stored there stored
        cases opened
        refine aligned.commits there (by rw [stored]; rfl) (by rw [stored]; nofun) chosen ?_
          (fun _ _ => record_found _) (effect_locks_record aligned.tables.locks (.inl rfl)) record_leases ?_
          named stepped atomic stands
        · rw [effect_found, if_pos ⟨rfl, rfl⟩, record_found, found]
        · rw [effect_view, record_view, aligned.tables.view]
      · have held : thread.stage.holds = true := by rw [joined]; rfl
        have same := aligned.same_found there held (by rw [joined]; nofun)
        have chosen := (aligned.decided there joined).1
        have asks : thread.task ≠ .release := by
          intro releases
          rw [releases] at chosen
          exact releaseDecision_ne_join chosen
        rw [← same] at chosen
        cases opened
        refine aligned.commits there held (by rw [joined]; nofun) chosen ?_ (fun _ _ => record_found _)
          (effect_locks_record aligned.tables.locks (.inr ⟨rfl, asks⟩)) record_leases ?_ named stepped atomic
          stands
        · rw [effect_found, if_neg (fun both => nomatch both.2), record_found, same]
        · rw [effect_view, record_view, aligned.tables.view]
    · cases opened

theorem answer_kept (aligned : s.Aligned) (taken : s.step (.answer k) = some next) :
    s.Kept (.answer k) next := by
  obtain ⟨fine, moved, _⟩ := Option.map_eq_some_iff.mp taken
  have opened := moved
  simp only [Interleaved.step, Interleaved.answer] at opened
  split at opened
  · cases opened
  next thread there =>
    split at opened
    next success message settled =>
      cases opened
      exact silent_kept rfl trivial taken moved
        (aligned.waits there (by rw [settled]; rfl) (by rw [settled]; nofun) nofun nofun)
        (answers_of_set there rfl nofun)
    · cases opened

/-- A section of no handler leaves the threads aligned when it changes no value under the lock of one. -/
theorem Aligned.rests (aligned : s.Aligned) {fine : Interleaved} {atomic : Expiry}
    (threads : fine.threads = s.fine.threads) (tables : Matches ⟨fine, atomic⟩)
    (found : ∀ {j : Nat} {thread : LockThread}, s.fine.threads[j]? = some thread →
      thread.stage.holds = true → fine.chubby.found thread.path = s.fine.chubby.found thread.path ∧
        atomic.chubby.found thread.path = s.atomic.chubby.found thread.path)
    (apart : ∀ {j : Nat} {thread : LockThread}, s.fine.threads[j]? = some thread →
      thread.stage.holds = true → fine.expiryHolds thread.path = false)
    (read : ∀ {locked : Bool}, fine.keyStage = .found locked → ∀ key ∈ fine.lockedKeys.head?,
      locked = decide (Locked (fine.chubby.found key))) : Aligned ⟨fine, atomic⟩ := by
  refine ⟨tables, ?_, ?_, ?_, ?_, read⟩
  · intro i j first second one two
    rw [threads] at one two
    exact aligned.exclusive one two
  · intro j thread there
    rw [threads] at there
    exact apart there
  · intro j thread decision there stage
    rw [threads] at there
    rw [(found there (by rw [stage]; rfl)).1]
    exact aligned.decided there stage
  · intro j thread there stage
    rw [threads] at there
    obtain ⟨same, same'⟩ := found there (by rw [stage]; rfl)
    rw [same, same']
    exact aligned.stored there stage

theorem keepAlive_kept {client : String} {deadline now : Nat} (aligned : s.Aligned)
    (taken : s.step (.keepAlive client deadline now) = some next) :
    s.Kept (.keepAlive client deadline now) next := by
  obtain ⟨fine, moved, _⟩ := Option.map_eq_some_iff.mp taken
  have opened := moved
  simp only [Interleaved.step, Interleaved.keepAlive] at opened
  split at opened
  next ready =>
    cases opened
    have wakes : s.atomic.clock ≤ now ∧ s.atomic.chubby.keepAliveWakes client deadline now := by
      unfold ChubbyImpl.keepAliveWakes ChubbyImpl.leaseOf
      rw [aligned.tables.clock, aligned.tables.leases]
      exact ready
    refine performed_kept rfl trivial taken moved (if_pos wakes) ?_ (answers_of_same rfl)
    refine aligned.rests rfl ?_ (fun _ _ => ⟨rfl, rfl⟩) aligned.apart aligned.read
    exact ⟨rfl, aligned.tables.locks, by simp only [ChubbyImpl.keepAlive, aligned.tables.leases],
      aligned.tables.view, aligned.tables.expiredClients, aligned.tables.clientId, aligned.tables.lockedKeys,
      aligned.tables.found⟩
  · cases opened

theorem collect_kept {now : Nat} {order : List String} (aligned : s.Aligned)
    (taken : s.step (.collect now order) = some next) : s.Kept (.collect now order) next := by
  obtain ⟨fine, moved, _⟩ := Option.map_eq_some_iff.mp taken
  have opened := moved
  simp only [Interleaved.step, Interleaved.collect] at opened
  split at opened
  next ready =>
    cases opened
    have collects : s.atomic.expiredClients = [] ∧ s.atomic.lockedKeys = [] ∧ s.atomic.clock ≤ now ∧
        order.Perm (s.atomic.chubby.expiredClients now) := by
      unfold ChubbyImpl.expiredClients
      rw [aligned.tables.clock, aligned.tables.leases, aligned.tables.expiredClients,
        aligned.tables.lockedKeys]
      exact ⟨ready.1, ready.2.1, ready.2.2.2⟩
    refine performed_kept rfl trivial taken moved (if_pos collects) ?_ (answers_of_same rfl)
    refine aligned.rests rfl ?_ (fun _ _ => ⟨rfl, rfl⟩) aligned.apart aligned.read
    exact ⟨rfl, aligned.tables.locks, by rw [aligned.tables.leases], aligned.tables.view, rfl,
      aligned.tables.clientId, aligned.tables.lockedKeys, aligned.tables.found⟩
  · cases opened

theorem lookUp_kept (aligned : s.Aligned) (taken : s.step .lookUp = some next) : s.Kept .lookUp next := by
  obtain ⟨fine, moved, _⟩ := Option.map_eq_some_iff.mp taken
  have opened := moved
  simp only [Interleaved.step, Interleaved.lookUp] at opened
  split at opened
  next client rest resting keys clients =>
    cases opened
    have looks : s.atomic.step .lookUp = some { s.atomic with
        expiredClients := rest
        clientId := client
        lockedKeys := s.atomic.chubby.lockedKeys client } := by
      simp only [Expiry.step, Expiry.lookUp, aligned.tables.lockedKeys, aligned.tables.expiredClients, keys,
        clients]
    refine performed_kept rfl trivial taken moved looks ?_ (answers_of_same rfl)
    have tables := aligned.tables
    refine aligned.rests rfl ?_ (fun _ _ => ⟨rfl, rfl⟩) (fun _ _ => ?_) fun stage => ?_
    · refine ⟨tables.clock, tables.locks, tables.leases, tables.view, rfl, rfl, ?_, tables.found⟩
      unfold ChubbyImpl.lockedKeys
      rw [tables.locks]
    · unfold Interleaved.expiryHolds
      rw [resting]
    · rw [resting] at stage
      cases stage
  · cases opened

theorem Matches.keyStage (tables : s.Matches) (stage : KeyStage) :
    Matches ⟨{ s.fine with keyStage := stage }, s.atomic⟩ :=
  ⟨tables.clock, tables.locks, tables.leases, tables.view, tables.expiredClients, tables.clientId,
    tables.lockedKeys, tables.found⟩

theorem lockKey_kept (aligned : s.Aligned) (taken : s.step .lockKey = some next) : s.Kept .lockKey next := by
  obtain ⟨fine, moved, _⟩ := Option.map_eq_some_iff.mp taken
  have opened := moved
  simp only [Interleaved.step, Interleaved.lockKey] at opened
  split at opened
  next key rest resting keys =>
    split at opened
    next free =>
      cases opened
      unfold Interleaved.keyFree at free
      rw [Bool.and_eq_true, List.all_eq_true] at free
      refine silent_kept rfl trivial taken moved ?_ (answers_of_same rfl)
      refine aligned.rests rfl (aligned.tables.keyStage _) (fun _ _ => ⟨rfl, rfl⟩) ?_ nofun
      intro j thread there holds
      have away := free.1 thread (List.mem_of_getElem? there)
      rw [holds] at away
      show decide (s.fine.lockedKeys.head? = some thread.path) = false
      rw [keys]
      grind
    · cases opened
  · cases opened

theorem readKey_kept (aligned : s.Aligned) (taken : s.step .readKey = some next) : s.Kept .readKey next := by
  obtain ⟨fine, moved, _⟩ := Option.map_eq_some_iff.mp taken
  have opened := moved
  simp only [Interleaved.step, Interleaved.readKey] at opened
  split at opened
  next key rest locked keys =>
    cases opened
    refine silent_kept rfl trivial taken moved ?_ (answers_of_same rfl)
    refine aligned.rests rfl (aligned.tables.keyStage _) (fun _ _ => ⟨rfl, rfl⟩) ?_ ?_
    · intro j thread there holds
      have apart := aligned.apart there holds
      unfold Interleaved.expiryHolds at apart
      rw [locked] at apart
      exact apart
    · intro found stage other first
      rw [keys] at first
      cases first
      cases stage
      rfl
  · cases opened

/-- No handler stores a value under a key that the expiry thread has the lock of. -/
theorem Aligned.away (aligned : s.Aligned) {locked : Bool} (stage : s.fine.keyStage = .found locked)
    {key : String} {rest : List String} (keys : s.fine.lockedKeys = key :: rest) {thread : LockThread}
    (there : s.fine.threads[k]? = some thread) (holds : thread.stage.holds = true) : thread.path ≠ key := by
  have apart := aligned.apart there holds
  unfold Interleaved.expiryHolds at apart
  rw [stage, keys] at apart
  rintro rfl
  exact of_decide_eq_false apart rfl

theorem freeKey_kept {now : Nat} (aligned : s.Aligned) (taken : s.step (.freeKey now) = some next) :
    s.Kept (.freeKey now) next := by
  obtain ⟨fine, moved, _⟩ := Option.map_eq_some_iff.mp taken
  have opened := moved
  simp only [Interleaved.step, Interleaved.freeKey] at opened
  split at opened
  next locked key rest stage keys =>
    split at opened
    next later =>
      have tables := aligned.tables
      have away {j : Nat} {thread : LockThread} (there : s.fine.threads[j]? = some thread)
          (holds : thread.stage.holds = true) : thread.path ≠ key := aligned.away stage keys there holds
      have quiet : ¬ s.Storing key := by
        rintro ⟨j, thread, there, same, stores⟩
        exact away there (by rw [stores]; rfl) same
      have reads : locked = decide (Locked (s.atomic.chubby.found key)) := by
        rw [tables.found key quiet]
        exact aligned.read stage key (by rw [keys]; rfl)
      have expires : s.atomic.step (.freeKey now) = (s.atomic.chubby.expireKey key).map fun chubby =>
          { s.atomic with chubby, clock := now, lockedKeys := rest } := by
        simp only [Expiry.step, Expiry.freeKey, tables.lockedKeys, keys, tables.clock, if_pos later]
      have apart {j : Nat} {thread : LockThread} (there : s.fine.threads[j]? = some thread)
          (holds : thread.stage.holds = true) : decide (key = thread.path) = false :=
        decide_eq_false (Ne.symm (away there holds))
      unfold ChubbyImpl.expireKey at expires
      by_cases taken_ : Locked (s.atomic.chubby.found key)
      · rw [if_pos taken_, ChubbyImpl.put_eq_store] at expires
        rw [reads, if_pos (decide_eq_true taken_), ChubbyImpl.put_eq_store] at opened
        cases opened
        refine performed_kept rfl trivial taken moved expires ?_ (answers_of_same rfl)
        refine aligned.rests rfl ?_ (fun there holds => ?_) apart nofun
        · refine ⟨rfl, tables.locks, tables.leases, tables.view, tables.expiredClients, tables.clientId, rfl,
            fun query still => ?_⟩
          simp only [ChubbyImpl.store_found]
          rw [tables.found query still]
        · simp only [ChubbyImpl.store_found, if_neg (away there holds), and_self]
      · rw [if_neg taken_] at expires
        rw [reads, if_neg (by rw [decide_eq_false taken_]; exact Bool.false_ne_true)] at opened
        cases opened
        refine performed_kept rfl trivial taken moved expires ?_ (answers_of_same rfl)
        exact aligned.rests rfl ⟨rfl, tables.locks, tables.leases, tables.view, tables.expiredClients,
          tables.clientId, rfl, tables.found⟩ (fun _ _ => ⟨rfl, rfl⟩) apart nofun
    · cases opened
  · cases opened

theorem unlockKey_kept (aligned : s.Aligned) (taken : s.step .unlockKey = some next) :
    s.Kept .unlockKey next := by
  obtain ⟨fine, moved, _⟩ := Option.map_eq_some_iff.mp taken
  have opened := moved
  simp only [Interleaved.step, Interleaved.unlockKey] at opened
  split at opened
  · cases opened
    exact silent_kept rfl trivial taken moved (aligned.rests rfl (aligned.tables.keyStage _)
      (fun _ _ => ⟨rfl, rfl⟩) (fun _ _ => rfl) nofun) (answers_of_same rfl)
  · cases opened

theorem step_kept {label : SectionLabel} (aligned : s.Aligned) (taken : s.step label = some next) :
    s.Kept label next := by
  cases label with
  | keepAlive client deadline now => exact keepAlive_kept aligned taken
  | acquireLock client path mode => exact arrive_kept aligned rfl trivial taken rfl
  | releaseLock client path => exact arrive_kept aligned rfl trivial taken rfl
  | lock k => exact lock_kept aligned taken
  | checkSession k => exact checkSession_kept aligned taken
  | readValue k => exact readValue_kept aligned taken
  | put k => exact put_kept aligned taken
  | record k => exact record_kept aligned taken
  | answer k => exact answer_kept aligned taken
  | collect now order => exact collect_kept aligned taken
  | lookUp => exact lookUp_kept aligned taken
  | lockKey => exact lockKey_kept aligned taken
  | readKey => exact readKey_kept aligned taken
  | freeKey now => exact freeKey_kept aligned taken
  | unlockKey => exact unlockKey_kept aligned taken

end Steps

theorem aligned_initial (slotNumber : Int) : Aligned (initial slotNumber) where
  tables := ⟨rfl, rfl, rfl, rfl, rfl, rfl, rfl, fun _ _ => rfl⟩
  exclusive := nofun
  apart := nofun
  decided := nofun
  stored := nofun
  read := nofun

/-- The handlers and the expiry thread run as a whole at their commits, in every run, exactly when no
acquire commits after its client has lost the session that it checked. Such a run of sections is a run
of whole handlers and whole expiries that ends with the same tables. -/
theorem linearizes_iff {slotNumber : Int} {labels : List SectionLabel} {fine : Interleaved}
    (ran : run Interleaved.step (.initial slotNumber) labels = some fine) :
    (EveryStep step Agrees (initial slotNumber) labels ↔ Guarded step SessionStands (initial slotNumber) labels) ∧
      (Guarded step SessionStands (initial slotNumber) labels → ∃ atomic : Expiry,
        run Expiry.step (.initial slotNumber)
          (committedOps Interleaved.step Interleaved.commits (.initial slotNumber) labels) = some atomic ∧
        Matches ⟨fine, atomic⟩) := by
  obtain ⟨atomic, both⟩ : ∃ atomic, run step (initial slotNumber) labels = some ⟨fine, atomic⟩ :=
    run_commitStep (initial slotNumber) ran
  have exact_ := everyStep_iff_guarded_of_invariant Aligned
    (fun _ _ _ aligned taken => (step_kept aligned taken).1)
    (fun _ _ _ aligned stands taken => (step_kept aligned taken).2 stands)
    (aligned_initial slotNumber) both
  refine ⟨exact_, fun stands => ⟨atomic, ?_, ?_⟩⟩
  · refine run_committedOps (everyStep_of_guarded ?_ (aligned_initial slotNumber) stands) both
    intro s label next aligned stands taken
    obtain ⟨agrees, kept⟩ := step_kept aligned taken
    exact ⟨(agrees.mpr stands).performs, kept stands⟩
  · exact (run_invariant (fun _ _ _ aligned stands taken => (step_kept aligned taken).2 stands)
      (aligned_initial slotNumber) stands both).tables

/-- A release and an acquire of two clients overlap on one path, and both run as a whole. -/
def overlapping : List SectionLabel :=
  [.keepAlive "1" 0 0, .keepAlive "2" 0 0, .acquireLock "1" "x" "EXCLUSIVE", .lock 0, .checkSession 0,
    .readValue 0, .acquireLock "2" "y" "SHARED", .lock 1, .put 0, .checkSession 1, .readValue 1, .record 0,
    .put 1, .answer 0, .releaseLock "1" "x", .lock 2, .record 1, .readValue 2, .put 2]

theorem linearizes_iff_overlapping : ∃ (fine : Interleaved) (atomic : Expiry),
    run Interleaved.step (.initial 0) overlapping = some fine ∧
    committedOps Interleaved.step Interleaved.commits (.initial 0) overlapping =
      [.keepAlive "1" 0 0, .keepAlive "2" 0 0, .acquireLock "1" "x" "EXCLUSIVE",
        .acquireLock "2" "y" "SHARED"] ∧
    run Expiry.step (.initial 0) (committedOps Interleaved.step Interleaved.commits (.initial 0) overlapping) =
      some atomic ∧ Matches ⟨fine, atomic⟩ := by
  obtain ⟨fine, ran, _⟩ := (Option.any_eq_true _ _).mp (by decide :
    (run Interleaved.step (.initial 0) overlapping).any (fun _ => true) = true)
  obtain ⟨atomic, performed, tables⟩ := (linearizes_iff ran).2 (by decide)
  exact ⟨fine, atomic, ran, by decide, performed, tables⟩

/-- The lease of a client is erased between the check of its session and the grant. -/
def sessionLost : List SectionLabel :=
  [.keepAlive "1" 0 0, .acquireLock "1" "x" "EXCLUSIVE", .lock 0, .checkSession 0, .readValue 0, .put 0,
    .collect 12000 ["1"], .lookUp, .record 0]

-- The client gets the lock after its keys were looked up, and the whole handler refuses it.
example : (run step (initial 0) sessionLost).any fun s =>
    !s.fine.chubby.hasSession "1" && decide (s.fine.expiredClients = [] ∧ s.fine.lockedKeys = []) &&
      s.fine.chubby.clientLockMap.contains ("x", "1") &&
      !s.atomic.chubby.clientLockMap.contains ("x", "1") := by
  decide

end Linearized

end Chubby.Lock
