/-
This file proves when two orders of the same Learn messages leave the same database.
-/

import Chubby.Library.LastWrite
import Chubby.Paxos.ServerFacts
import Mathlib.Data.Finset.Max

namespace Chubby.Paxos

open Chubby.Library

/-- A finite set of Learn messages has at most one value for each slot, of the form `key#mode`. -/
structure LearnLog where
  entries : Finset DecideRequest
  single : ∀ first ∈ entries, ∀ second ∈ entries, first.seq = second.seq → first = second
  parsed : ∀ entry ∈ entries, ∃ pair, getKeyValue entry.value = .ok pair

namespace LearnLog

/-- The messages are delivered in this order, each at least once. -/
def Delivers (log : LearnLog) (order : List DecideRequest) : Prop :=
  ∀ entry, entry ∈ order ↔ entry ∈ log.entries

/-- The mode of the highest-numbered slot whose value has the key. -/
def Top (log : LearnLog) (key mode : String) : Prop :=
  ∃ entry ∈ log.entries, getKeyValue entry.value = .ok (key, mode) ∧
    ∀ other ∈ log.entries, ∀ text, getKeyValue other.value = .ok (key, text) → other.seq ≤ entry.seq

end LearnLog

namespace RocksDBWrapper

/-- The pairs are put in their order. -/
def putAll (db : RocksDBWrapper) (pairs : List (String × String)) : RocksDBWrapper :=
  pairs.foldl (fun db pair => (db.put pair.1 pair.2 true).1) db

theorem putAll_unopened (db : RocksDBWrapper) (unopened : db.opened = false) (pairs : List (String × String)) :
    db.putAll pairs = db := by
  induction pairs with
  | nil => rfl
  | cons pair rest ih =>
      have same : (db.put pair.1 pair.2 true).1 = db := by simp [put, unopened]
      show ((db.put pair.1 pair.2 true).1).putAll rest = db
      rw [same, ih]

theorem putAll_opened (db : RocksDBWrapper) (opened : db.opened = true) (pairs : List (String × String)) :
    db.putAll pairs = { db with contents := writeAll db.contents pairs } := by
  induction pairs generalizing db with
  | nil => rfl
  | cons pair rest ih =>
      have stored : (db.put pair.1 pair.2 true).1 =
          { db with contents := Function.update db.contents pair.1 (some pair.2) } := by
        simp [put, opened]
      show ((db.put pair.1 pair.2 true).1).putAll rest = _
      rw [stored]
      exact ih ⟨db.opened, Function.update db.contents pair.1 (some pair.2)⟩ opened

theorem putAll_get (db : RocksDBWrapper) (pairs : List (String × String)) (key : String) :
    (db.putAll pairs).get key =
      if db.opened then (lastWrite pairs key).or (db.contents key) else none := by
  cases opened : db.opened with
  | false =>
      rw [putAll_unopened db opened]
      simp [get, opened]
  | true =>
      rw [putAll_opened db opened, ← writeAll_apply]
      simp [get, opened]

end RocksDBWrapper

namespace PaxosImpl

/-- The server handles the messages in their order, and its database commits every pair. -/
def learnAll {n : Nat} (server : PaxosImpl) (me : Fin n) (order : List DecideRequest) : PaxosImpl :=
  order.foldl (fun server request => (server.learn me request true).1) server

/-- A slot takes no value once it is decided or collected. -/
def closedSlot (server : PaxosImpl) (seq : Int) : Bool :=
  seq < server.lowestSlot || (server.slotAt seq).status = .decided

end PaxosImpl

/-- The messages that find their slot open: the first delivery of each. -/
def applied (closed : Int → Bool) : List DecideRequest → List DecideRequest
  | [] => []
  | request :: rest =>
      if closed request.seq then applied closed rest
      else request :: applied (Function.update closed request.seq true) rest

theorem applied_cons (closed : Int → Bool) (request : DecideRequest) (rest : List DecideRequest) :
    applied closed (request :: rest) = if closed request.seq then applied closed rest
      else request :: applied (Function.update closed request.seq true) rest := rfl

def pairOf (request : DecideRequest) : Option (String × String) :=
  match getKeyValue request.value with
  | .error _ => none
  | .ok pair => some pair

/-- The pairs that the messages write, in the order of their first deliveries. -/
def writes (server : PaxosImpl) (order : List DecideRequest) : List (String × String) :=
  (applied server.closedSlot order).filterMap pairOf

section Learn

variable {n : Nat} (server : PaxosImpl) (me : Fin n) (request : DecideRequest)

/-- The first section of the handler closes nothing and leaves the database alone. -/
theorem touched_slot (seq : Int) :
    ((server.addSlots seq).raiseHighestSlot seq).paxosDb = server.paxosDb ∧
      ((server.addSlots seq).raiseHighestSlot seq).lowestSlot = server.lowestSlot ∧
      ∀ query, (((server.addSlots seq).raiseHighestSlot seq).slotAt query).status =
        (server.slotAt query).status := by
  have slots (query : Int) : ((server.addSlots seq).slotAt query).status =
      (server.slotAt query).status := by
    unfold PaxosImpl.addSlots
    rw [PaxosImpl.slotAt_setSlot]
    split
    next same => rw [same]
    · rfl
  unfold PaxosImpl.raiseHighestSlot
  split
  · exact ⟨rfl, rfl, slots⟩
  · exact ⟨rfl, rfl, slots⟩

/-- A message for a closed slot changes neither the database nor what is closed. -/
theorem learn_closed (closed : server.closedSlot request.seq = true) :
    (server.learn me request true).1.paxosDb = server.paxosDb ∧
      (server.learn me request true).1.closedSlot = server.closedSlot := by
  obtain ⟨db, lowest, status⟩ := touched_slot server request.seq
  unfold PaxosImpl.learn
  split
  · exact ⟨rfl, rfl⟩
  next above =>
    have decided : (server.slotAt request.seq).status = .decided := by
      simpa [PaxosImpl.closedSlot, above] using closed
    dsimp only
    rw [status, if_neg (not_not.mpr decided)]
    refine ⟨db, funext fun query => ?_⟩
    unfold PaxosImpl.closedSlot
    rw [lowest, status]

/-- A message for an open slot writes its pair and closes the slot. -/
theorem learn_open (open_ : server.closedSlot request.seq = false) :
    (server.learn me request true).1.paxosDb = (match pairOf request with
      | none => server.paxosDb
      | some (key, mode) => (server.paxosDb.put key mode true).1) ∧
      (server.learn me request true).1.closedSlot =
        Function.update server.closedSlot request.seq true := by
  obtain ⟨db, lowest, status⟩ := touched_slot server request.seq
  obtain ⟨above, undecided⟩ : ¬ request.seq < server.lowestSlot ∧
      (server.slotAt request.seq).status ≠ .decided := by
    simpa [PaxosImpl.closedSlot] using open_
  have marked (paxosDb : RocksDBWrapper) :
      ({ ((server.addSlots request.seq).raiseHighestSlot request.seq).markDecided request.seq
          request.value with paxosDb } : PaxosImpl).closedSlot =
        Function.update server.closedSlot request.seq true := by
    funext query
    show ((_ : Bool) || decide (((((server.addSlots request.seq).raiseHighestSlot
      request.seq).markDecided request.seq request.value).slotAt query).status = .decided)) = _
    unfold PaxosImpl.markDecided
    rw [PaxosImpl.slotAt_setSlot]
    by_cases same : query = request.seq
    · subst same
      simp
    · rw [if_neg same, Function.update_of_ne same, status]
      unfold PaxosImpl.closedSlot
      rw [← lowest]
      rfl
  unfold PaxosImpl.learn
  rw [if_neg above]
  dsimp only
  rw [status, if_pos undecided]
  unfold pairOf
  rcases getKeyValue request.value with _ | ⟨key, mode⟩
  · exact ⟨db, marked _⟩
  · refine ⟨?_, marked _⟩
    dsimp only
    show (RocksDBWrapper.put ((server.addSlots request.seq).raiseHighestSlot request.seq).paxosDb
      key mode true).1 = _
    rw [db]

end Learn

section Replay

variable {n : Nat} (server : PaxosImpl) (me : Fin n) (order : List DecideRequest)

/-- A run of Learn messages puts its pairs into the database in the order of the first deliveries. -/
theorem learnAll_paxosDb :
    (server.learnAll me order).paxosDb = server.paxosDb.putAll (writes server order) := by
  unfold writes
  induction order generalizing server with
  | nil => rfl
  | cons request rest ih =>
      show ((server.learn me request true).1.learnAll me rest).paxosDb = _
      rw [ih]
      rcases closed : server.closedSlot request.seq with _ | _
      · obtain ⟨db, closes⟩ := learn_open server me request closed
        rw [closes, db, applied_cons, closed, if_neg Bool.false_ne_true, List.filterMap_cons]
        rcases pairOf request with _ | ⟨written, mode⟩
        · rfl
        · rfl
      · obtain ⟨db, closes⟩ := learn_closed server me request closed
        rw [closes, db, applied_cons, closed, if_pos rfl]

/-- The database reads back the last pair written among the first deliveries. -/
theorem learnAll_get (key : String) : (server.learnAll me order).paxosDb.get key =
    if server.paxosDb.opened then
      (lastWrite (writes server order) key).or (server.paxosDb.contents key) else none := by
  rw [learnAll_paxosDb, RocksDBWrapper.putAll_get]

end Replay

/-- The messages that are applied are among those delivered. -/
theorem mem_of_applied {closed : Int → Bool} {order : List DecideRequest} {request : DecideRequest}
    (member : request ∈ applied closed order) : request ∈ order := by
  induction order generalizing closed with
  | nil => cases member
  | cons first rest ih =>
      unfold applied at member
      split at member
      · exact List.mem_cons_of_mem _ (ih member)
      · rcases List.mem_cons.mp member with same | later
        · exact same ▸ List.mem_cons_self ..
        · exact List.mem_cons_of_mem _ (ih later)

/-- After all deliveries the two servers read the same mode for every key, namely the mode of the
highest-numbered slot of the log with that key. -/
structure Converged (log : LearnLog) (first second : PaxosImpl) : Prop where
  same : ∀ key, first.paxosDb.get key = second.paxosDb.get key
  top : ∀ key mode, log.Top key mode → first.paxosDb.get key = some mode

/-- The last pair of the key among the first deliveries, or else the database as it was, has the
mode of the highest-numbered slot of the log with the key. -/
def TopIsLast (log : LearnLog) (server : PaxosImpl) (order : List DecideRequest) : Prop :=
  ∀ key mode, log.Top key mode → server.paxosDb.opened = true ∧
    (lastWrite (writes server order) key).or (server.paxosDb.contents key) = some mode

theorem topIsLast_iff {n : Nat} {log : LearnLog} {server : PaxosImpl} {order : List DecideRequest}
    (me : Fin n) : TopIsLast log server order ↔
      ∀ key mode, log.Top key mode → (server.learnAll me order).paxosDb.get key = some mode := by
  refine forall₂_congr fun key mode => imp_congr_right fun _ => ?_
  rw [learnAll_get]
  split
  next opened => exact and_iff_right opened
  next unopened => simp [unopened]

/-- A key of the log has a highest-numbered slot. -/
theorem LearnLog.exists_top (log : LearnLog) {key : String} {entry : DecideRequest}
    (member : entry ∈ log.entries) {mode : String} (pair : getKeyValue entry.value = .ok (key, mode)) :
    ∃ mode, log.Top key mode := by
  classical
  obtain ⟨top, inside, most⟩ := Finset.exists_max_image
    (log.entries.filter fun other => ∃ text, getKeyValue other.value = .ok (key, text))
    DecideRequest.seq ⟨entry, Finset.mem_filter.mpr ⟨member, mode, pair⟩⟩
  obtain ⟨found, text, same⟩ := Finset.mem_filter.mp inside
  exact ⟨text, top, found, same, fun other held value given =>
    most other (Finset.mem_filter.mpr ⟨held, value, given⟩)⟩

/-- A key outside the log is never written. -/
theorem lastWrite_of_absent {log : LearnLog} {server : PaxosImpl} {order : List DecideRequest}
    (delivers : log.Delivers order) {key : String} (absent : ¬ ∃ mode, log.Top key mode) :
    lastWrite (writes server order) key = none := by
  refine lastWrite_eq_none fun write member same => ?_
  obtain ⟨request, held, pair⟩ := List.mem_filterMap.mp member
  have entry := (delivers request).mp (mem_of_applied held)
  unfold pairOf at pair
  split at pair
  · cases pair
  next parsed =>
    cases pair
    subst same
    exact absent (log.exists_top entry parsed)

/-- Two orders of a log converge exactly when each ends, for every key, with its highest slot. -/
theorem converged_iff {n : Nat} {log : LearnLog} {server : PaxosImpl} {one two : Fin n}
    {first second : List DecideRequest} (delivers : log.Delivers first)
    (delivers' : log.Delivers second) :
    Converged log (server.learnAll one first) (server.learnAll two second) ↔
      TopIsLast log server first ∧ TopIsLast log server second := by
  rw [topIsLast_iff one, topIsLast_iff two]
  constructor
  · intro converged
    refine ⟨converged.top, fun key mode top => ?_⟩
    rw [← converged.same]
    exact converged.top key mode top
  · rintro ⟨early, late⟩
    refine ⟨fun key => ?_, early⟩
    by_cases held : ∃ mode, log.Top key mode
    · obtain ⟨mode, top⟩ := held
      rw [early key mode top, late key mode top]
    · rw [learnAll_get, learnAll_get, lastWrite_of_absent delivers held,
        lastWrite_of_absent delivers' held]

/-- One key is set twice. -/
def setTwice : LearnLog where
  entries := {⟨1, "x#SHARED"⟩, ⟨2, "x#FREE"⟩}
  single := by decide
  parsed := by
    intro entry member
    simp only [Finset.mem_insert, Finset.mem_singleton] at member
    rcases member with rfl | rfl
    · exact ⟨("x", "SHARED"), by decide⟩
    · exact ⟨("x", "FREE"), by decide⟩

theorem setTwice_top {key mode : String} (top : setTwice.Top key mode) : key = "x" ∧ mode = "FREE" := by
  obtain ⟨entry, member, pair, most⟩ := top
  simp only [setTwice, Finset.mem_insert, Finset.mem_singleton] at member
  rcases member with rfl | rfl
  · have first : getKeyValue "x#SHARED" = .ok ("x", "SHARED") := by decide
    rw [first] at pair
    cases pair
    exact absurd (most ⟨2, "x#FREE"⟩ (by simp [setTwice]) "FREE" (by decide)) (by decide)
  · have second : getKeyValue "x#FREE" = .ok ("x", "FREE") := by decide
    rw [second] at pair
    cases pair
    exact ⟨rfl, rfl⟩

theorem converged_iff_setTwice : Converged setTwice
    ((PaxosImpl.initial 2).learnAll (0 : Fin 2) [⟨1, "x#SHARED"⟩, ⟨2, "x#FREE"⟩])
    ((PaxosImpl.initial 2).learnAll (1 : Fin 2)
      [⟨1, "x#SHARED"⟩, ⟨1, "x#SHARED"⟩, ⟨2, "x#FREE"⟩, ⟨1, "x#SHARED"⟩]) := by
  refine (converged_iff (fun entry => by simp [setTwice]) fun entry => ?_).mpr ⟨?_, ?_⟩
  · simp only [setTwice, List.mem_cons, List.not_mem_nil, Finset.mem_insert, Finset.mem_singleton]
    tauto
  · intro key mode top
    obtain ⟨rfl, rfl⟩ := setTwice_top top
    decide
  · intro key mode top
    obtain ⟨rfl, rfl⟩ := setTwice_top top
    decide

theorem diverged_replicas : ¬ ∀ (n : Nat) (log : LearnLog) (server : PaxosImpl) (one two : Fin n)
    (first second : List DecideRequest), log.Delivers first → log.Delivers second →
      Converged log (server.learnAll one first) (server.learnAll two second) := by
  intro converges
  have same := (converges 2 setTwice (.initial 2) 0 1 [⟨1, "x#SHARED"⟩, ⟨2, "x#FREE"⟩]
    [⟨2, "x#FREE"⟩, ⟨1, "x#SHARED"⟩] (fun entry => by simp [setTwice])
    (fun entry => by simp [setTwice, or_comm])).same "x"
  exact absurd same (by decide)

end Chubby.Paxos
