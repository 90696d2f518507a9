/-
This file compares the two heartbeat paths that mark slots as decided with the Learn handler.
-/

import Chubby.Paxos.Convergence

namespace Chubby.Paxos

open Chubby.Library

/-- The decided slots of a heartbeat in increasing order, with values of the form `key#mode`. -/
structure DecidedLog where
  entries : List DecideRequest
  increasing : entries.Pairwise fun earlier later => earlier.seq < later.seq
  parsed : ∀ entry ∈ entries, ∃ pair, getKeyValue entry.value = .ok pair

namespace DecidedLog

/-- The slots of a heartbeat message are those of the log and carry their values. -/
structure CarriedBy (log : DecidedLog) (slots : Int → Option PaxosSlot) : Prop where
  sent : ∀ entry ∈ log.entries, ∃ slot, slots entry.seq = some slot ∧ slot.value = entry.value
  only : ∀ seq slot, slots seq = some slot → (⟨seq, slot.value⟩ : DecideRequest) ∈ log.entries

/-- The server has decided no slot of the log. -/
def Undecided (log : DecidedLog) (server : PaxosImpl) : Prop :=
  ∀ entry ∈ log.entries, server.decidedValue entry.seq = none

/-- The pairs of the log, in the order of their slots. -/
def pairs (log : DecidedLog) : List (String × String) := log.entries.filterMap pairOf

/-- Two servers have decided the slots of the log alike and hold the same database. -/
structure Agrees (log : DecidedLog) (first second : PaxosImpl) : Prop where
  decided : ∀ entry ∈ log.entries, first.decidedValue entry.seq = second.decidedValue entry.seq
  database : first.paxosDb = second.paxosDb

/-- No slot of the log is collected, and an open database holds the last mode of every key. -/
structure UpToDate (log : DecidedLog) (server : PaxosImpl) : Prop where
  uncollected : ∀ entry ∈ log.entries, server.lowestSlot ≤ entry.seq
  stored : server.paxosDb.opened = true → ∀ key mode, lastWrite log.pairs key = some mode →
    server.paxosDb.contents key = some mode

end DecidedLog

/-- A heartbeat request that the follower does not refuse. -/
def HeartbeatRequest.processedBy {n : Nat} (request : HeartbeatRequest) (me : Fin n)
    (server : PaxosImpl) : Prop :=
  (me.val : Int) ≠ request.id ∧ server.view ≤ request.view

instance {n : Nat} (request : HeartbeatRequest) (me : Fin n) (server : PaxosImpl) :
    Decidable (request.processedBy me server) := inferInstanceAs (Decidable (_ ∧ _))

/-- A database keeps its contents under writes exactly when it already holds the last of them. -/
theorem RocksDBWrapper.eq_putAll_iff (db : RocksDBWrapper) (pairs : List (String × String)) :
    db = db.putAll pairs ↔ (db.opened = true → ∀ key mode, lastWrite pairs key = some mode →
      db.contents key = some mode) := by
  cases opened : db.opened with
  | false => simp [db.putAll_unopened opened pairs]
  | true =>
      rw [db.putAll_opened opened pairs]
      constructor
      · intro same _ key mode last
        have contents : db.contents = writeAll db.contents pairs := congrArg RocksDBWrapper.contents same
        rw [contents, writeAll_apply, last]
        rfl
      · intro stored
        have contents : writeAll db.contents pairs = db.contents := by
          funext key
          rw [writeAll_apply]
          cases last : lastWrite pairs key with
          | none => rfl
          | some mode => exact (stored rfl key mode last).symm
        rw [contents]

/-- Messages with increasing slots that all find their slot open are all applied. -/
theorem applied_of_open {closed : Int → Bool} {order : List DecideRequest}
    (increasing : order.Pairwise fun earlier later => earlier.seq < later.seq)
    (open_ : ∀ request ∈ order, closed request.seq = false) : applied closed order = order := by
  induction order generalizing closed with
  | nil => rfl
  | cons request rest ih =>
      obtain ⟨first, others⟩ := List.pairwise_cons.mp increasing
      rw [applied_cons, open_ request (List.mem_cons_self ..), if_neg Bool.false_ne_true]
      congr 1
      apply ih others
      intro later member
      rw [Function.update_of_ne (ne_of_gt (first later member))]
      exact open_ later (List.mem_cons_of_mem _ member)

section Caught

variable (server : PaxosImpl) (received : Int → Option PaxosSlot)

@[simp] theorem copyDecided_paxosDb : (server.copyDecided received).paxosDb = server.paxosDb := rfl

/-- A copied slot keeps its decided value and otherwise takes the received one. -/
theorem copyDecided_decidedValue (seq : Int) : (server.copyDecided received).decidedValue seq =
    (server.decidedValue seq).or ((received seq).map PaxosSlot.value) := by
  unfold PaxosImpl.decidedValue
  rw [PaxosImpl.slotAt_copyDecided]
  cases received seq with
  | none => simp
  | some other =>
      by_cases decided : (server.slotAt seq).status = .decided
      · simp [decided]
      · simp [decided]

/-- A processed heartbeat decides and stores what the leader's copy of the slots does. -/
theorem heartbeat_processed {n : Nat} {me : Fin n} {request : HeartbeatRequest}
    (processed : request.processedBy me server) :
    (server.heartbeat me request).1.paxosDb = server.paxosDb ∧
      ∀ seq, (server.heartbeat me request).1.decidedValue seq =
        (server.decidedValue seq).or ((request.slots seq).map PaxosSlot.value) := by
  obtain ⟨other, current⟩ := processed
  have database : (server.raiseView request.view).paxosDb = server.paxosDb := by
    unfold PaxosImpl.raiseView
    split <;> rfl
  have quiet := PaxosImpl.quiet_raiseView server request.view
  cases server.heartbeat_cases me request with
  | own own => exact absurd own other
  | refused behind => exact absurd current (Int.not_le.mpr behind)
  | processed _ _ same =>
      rw [same]
      refine ⟨database, fun seq => ?_⟩
      rw [copyDecided_decidedValue, ← quiet.decidedValue seq]
      rfl

end Caught

section Learned

variable {n : Nat} (server : PaxosImpl) (me : Fin n) (request : DecideRequest)

/-- A Learn decides its slot when the slot is open, and no other slot. -/
theorem learn_decidedValue (seq : Int) : (server.learn me request true).1.decidedValue seq =
    if seq = request.seq ∧ server.closedSlot seq = false then some request.value
    else server.decidedValue seq := by
  have settled := PaxosImpl.learn_settles server me request true
  have unchanged (silent : ¬ (seq = request.seq ∧ server.closedSlot seq = false)) :
      (server.learn me request true).1.decidedValue seq = server.decidedValue seq := by
    cases before : server.decidedValue seq with
    | some value => exact settled.kept seq value before
    | none =>
        cases after : (server.learn me request true).1.decidedValue seq with
        | none => rfl
        | some value =>
            -- a closed slot without a decision is collected, so the handler refuses the message
            obtain ⟨same, _⟩ := (settled.offered seq value after).resolve_left (by simp [before])
            have closed : server.closedSlot request.seq = true := by
              rw [← same]
              simpa [same] using silent
            have collected : request.seq < server.lowestSlot := by
              simpa [PaxosImpl.closedSlot, PaxosImpl.undecided_iff.mp (same ▸ before)] using closed
            rw [show server.learn me request true = (server, .error garbageCollected) from
              if_pos collected, before] at after
            cases after
  split
  next opens =>
    obtain ⟨rfl, open_⟩ := opens
    obtain ⟨above, undecided⟩ : server.lowestSlot ≤ request.seq ∧
        (server.slotAt request.seq).status ≠ .decided := by
      simpa [PaxosImpl.closedSlot] using open_
    obtain ⟨_, closes⟩ := learn_open server me request open_
    have closed : (server.learn me request true).1.closedSlot request.seq = true := by
      rw [closes, Function.update_self]
    have decided : ((server.learn me request true).1.slotAt request.seq).status = .decided := by
      simpa [PaxosImpl.closedSlot, settled.lowestSlot, Int.not_lt.mpr above] using closed
    have value : (server.learn me request true).1.decidedValue request.seq =
        some ((server.learn me request true).1.slotAt request.seq).value := if_pos decided
    obtain ⟨_, same⟩ := (settled.offered request.seq _ value).resolve_left
      (by simp [PaxosImpl.undecided_iff.mpr undecided])
    rw [value, same]
  next silent => exact unchanged silent

/-- The messages leave a slot that none of them names. -/
theorem learnAll_absent (order : List DecideRequest) (seq : Int)
    (absent : ∀ request ∈ order, request.seq ≠ seq) :
    (server.learnAll me order).decidedValue seq = server.decidedValue seq := by
  induction order generalizing server with
  | nil => rfl
  | cons request rest ih =>
      have other : ¬ seq = request.seq := Ne.symm (absent request (List.mem_cons_self ..))
      show ((server.learn me request true).1.learnAll me rest).decidedValue seq = _
      rw [ih _ fun later member => absent later (List.mem_cons_of_mem _ member),
        learn_decidedValue, if_neg fun both => other both.1]

/-- Messages with increasing undecided slots decide the slots that are not collected. -/
theorem learnAll_decidedValue (order : List DecideRequest)
    (increasing : order.Pairwise fun earlier later => earlier.seq < later.seq)
    (undecided : ∀ entry ∈ order, server.decidedValue entry.seq = none) :
    ∀ entry ∈ order, (server.learnAll me order).decidedValue entry.seq =
      if server.lowestSlot ≤ entry.seq then some entry.value else none := by
  induction order generalizing server with
  | nil => simp
  | cons request rest ih =>
      obtain ⟨first, others⟩ := List.pairwise_cons.mp increasing
      obtain ⟨here, later⟩ := List.forall_mem_cons.mp undecided
      intro entry member
      show ((server.learn me request true).1.learnAll me rest).decidedValue entry.seq = _
      obtain rfl | member := List.mem_cons.mp member
      · have absent : ∀ other ∈ rest, other.seq ≠ entry.seq := fun other member =>
          ne_of_gt (first other member)
        have closed : server.closedSlot entry.seq = decide (entry.seq < server.lowestSlot) := by
          simp [PaxosImpl.closedSlot, PaxosImpl.undecided_iff.mp here]
        rw [learnAll_absent _ _ _ _ absent, learn_decidedValue, closed, here]
        by_cases above : server.lowestSlot ≤ entry.seq
        · simp [above]
        · simp [above, Int.not_le.mp above]
      · have lowest := (PaxosImpl.learn_settles server me request true).lowestSlot
        rw [ih _ others ?_ entry member, lowest]
        intro other inside
        have apart : other.seq ≠ request.seq := ne_of_gt (first other inside)
        rw [learn_decidedValue, if_neg fun both => apart both.1]
        exact later other inside

end Learned

section Comparison

variable {n : Nat} {log : DecidedLog} {server caughtUp : PaxosImpl} {slots : Int → Option PaxosSlot}

/-- A heartbeat that carries the log gives every undecided slot of the log its value. -/
theorem DecidedLog.CarriedBy.value (carried : log.CarriedBy slots) {entry : DecideRequest}
    (member : entry ∈ log.entries) : (slots entry.seq).map PaxosSlot.value = some entry.value := by
  obtain ⟨slot, found, same⟩ := carried.sent entry member
  simp [found, same]

/-- A server that took every slot of the log and kept its database agrees with the Learn handler
exactly when it was up to date. -/
theorem agrees_learnAll_iff (me : Fin n) (undecided : log.Undecided server)
    (taken : ∀ entry ∈ log.entries, caughtUp.decidedValue entry.seq = some entry.value)
    (kept : caughtUp.paxosDb = server.paxosDb) :
    log.Agrees caughtUp (server.learnAll me log.entries) ↔ log.UpToDate server := by
  have learned := learnAll_decidedValue server me log.entries log.increasing undecided
  have above_iff : (∀ entry ∈ log.entries, caughtUp.decidedValue entry.seq =
      (server.learnAll me log.entries).decidedValue entry.seq) ↔
      ∀ entry ∈ log.entries, server.lowestSlot ≤ entry.seq := by
    refine forall₂_congr fun entry member => ?_
    rw [taken entry member, learned entry member]
    split <;> simp_all
  have database (above : ∀ entry ∈ log.entries, server.lowestSlot ≤ entry.seq) :
      (server.learnAll me log.entries).paxosDb = server.paxosDb.putAll log.pairs := by
    have all : applied server.closedSlot log.entries = log.entries := by
      apply applied_of_open log.increasing
      intro entry member
      simpa [PaxosImpl.closedSlot, above entry member] using
        PaxosImpl.undecided_iff.mp (undecided entry member)
    rw [learnAll_paxosDb]
    unfold writes
    rw [all]
    rfl
  constructor
  · rintro ⟨decided, same⟩
    have above := above_iff.mp decided
    rw [kept, database above] at same
    exact ⟨above, (server.paxosDb.eq_putAll_iff log.pairs).mp same⟩
  · rintro ⟨above, stored⟩
    refine ⟨above_iff.mpr above, ?_⟩
    rw [kept, database above]
    exact (server.paxosDb.eq_putAll_iff log.pairs).mpr stored

/-- Neither end of a heartbeat stores the pairs of the slots that it marks as decided, so it agrees
with the Learn handler exactly on a server that holds them already. -/
theorem catchUp_agrees_iff (me : Fin n) (undecided : log.Undecided server)
    (carried : log.CarriedBy slots) :
    (log.Agrees (server.copyDecided slots) (server.learnAll me log.entries) ↔
      log.UpToDate server) ∧
    ∀ request : HeartbeatRequest, request.slots = slots → request.processedBy me server →
      (log.Agrees (server.heartbeat me request).1 (server.learnAll me log.entries) ↔
        log.UpToDate server) := by
  constructor
  · refine agrees_learnAll_iff me undecided (fun entry member => ?_) (copyDecided_paxosDb server slots)
    rw [copyDecided_decidedValue, undecided entry member, carried.value member]
    rfl
  · rintro request rfl processed
    obtain ⟨database, decided⟩ := heartbeat_processed server processed
    refine agrees_learnAll_iff me undecided (fun entry member => ?_) database
    rw [decided, undecided entry member, carried.value member]
    rfl

end Comparison

/-- One lock is shared. -/
def sharedOnce : DecidedLog where
  entries := [⟨1, "x#SHARED"⟩]
  increasing := by simp
  parsed := by
    intro entry member
    obtain rfl := List.mem_singleton.mp member
    exact ⟨("x", "SHARED"), by decide⟩

/-- The leader's heartbeat carries the shared lock. -/
def sharedSlots (seq : Int) : Option PaxosSlot :=
  if seq = 1 then some { initSlot 0 with value := "x#SHARED" } else none

theorem sharedOnce_carried : sharedOnce.CarriedBy sharedSlots := by
  constructor
  · intro entry member
    obtain rfl := List.mem_singleton.mp member
    exact ⟨_, if_pos rfl, rfl⟩
  · intro seq slot found
    unfold sharedSlots at found
    split at found
    next same =>
      cases found
      subst same
      exact List.mem_singleton.mpr rfl
    · cases found

theorem sharedOnce_undecided {server : PaxosImpl} (undecided : server.decidedValue 1 = none) :
    sharedOnce.Undecided server := by
  intro entry member
  obtain rfl := List.mem_singleton.mp member
  exact undecided

theorem catchUp_agrees_iff_sharedOnce :
    let server := { PaxosImpl.initial 2 with paxosDb := (RocksDBWrapper.empty.put "x" "SHARED" true).1 }
    sharedOnce.Agrees (server.copyDecided sharedSlots) (server.learnAll (1 : Fin 2) sharedOnce.entries) ∧
      sharedOnce.Agrees (server.heartbeat (1 : Fin 2) ⟨0, 0, [-1, -1], sharedSlots⟩).1
        (server.learnAll (1 : Fin 2) sharedOnce.entries) := by
  intro server
  have undecided : sharedOnce.Undecided server := sharedOnce_undecided (by decide)
  have current : sharedOnce.UpToDate server := by
    constructor
    · intro entry member
      obtain rfl := List.mem_singleton.mp member
      decide
    · intro _ key mode last
      have pairs : sharedOnce.pairs = [("x", "SHARED")] := by decide
      rw [pairs] at last
      by_cases same : "x" = key
      · subst same
        exact last
      · simp [lastWrite, same] at last
  obtain ⟨leader, follower⟩ := catchUp_agrees_iff (1 : Fin 2) undecided sharedOnce_carried
  exact ⟨leader.mpr current, (follower ⟨0, 0, [-1, -1], sharedSlots⟩ rfl (by decide)).mpr current⟩

theorem heartbeat_drops_pair : ¬ ∀ (n : Nat) (me : Fin n) (log : DecidedLog) (server : PaxosImpl)
    (slots : Int → Option PaxosSlot), log.Undecided server → log.CarriedBy slots →
      log.Agrees (server.copyDecided slots) (server.learnAll me log.entries) ∧
      ∀ request : HeartbeatRequest, request.slots = slots → request.processedBy me server →
        log.Agrees (server.heartbeat me request).1 (server.learnAll me log.entries) := by
  intro agrees
  have undecided : sharedOnce.Undecided (.initial 2) := sharedOnce_undecided (by decide)
  have database := (agrees 2 1 sharedOnce (.initial 2) sharedSlots undecided sharedOnce_carried).1.database
  have read := congrArg (fun db => db.get "x") database
  exact absurd read (by decide)

end Chubby.Paxos
