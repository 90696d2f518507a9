/-
This file models the state of one Paxos server and the handlers that change it.
-/

import Chubby.Paxos.Store
import Mathlib.Tactic.Linarith

namespace Chubby.Paxos

/-- An `int` of the source keeps the low 32 bits of a wider number that is stored in it. -/
def asInt (number : Int) : Int := number.bmod (2 ^ 32)

/-- The number is in the range of an `int`. -/
def FitsInt (number : Int) : Prop := -2 ^ 31 ≤ number ∧ number < 2 ^ 31

instance (number : Int) : Decidable (FitsInt number) := inferInstanceAs (Decidable (_ ∧ _))

theorem asInt_of_fits {number : Int} (fits : FitsInt number) : asInt number = number := by
  obtain ⟨lower, upper⟩ := fits
  apply Int.bmod_eq_of_le <;> omega

/-- Two numbers leave the same `int` exactly when they differ by a multiple of its range. -/
theorem asInt_eq_iff {first second : Int} : asInt first = asInt second ↔ 2 ^ 32 ∣ first - second := by
  unfold asInt
  rw [Int.bmod_eq_bmod_iff_bmod_sub_eq_zero, ← Int.dvd_iff_bmod_eq_zero]
  rfl

theorem asInt_asInt_add (number further : Int) : asInt (asInt number + further) = asInt (number + further) :=
  Int.bmod_add_bmod

inductive ConsensusStatus where
  | decided
  | notDecided
  | pending
  | forgotten
  deriving DecidableEq, Repr

/-- The fields keep the source's names; `value` is the decided value. -/
structure PaxosSlot where
  n : Int
  nP : Int
  nA : Int
  vA : String
  highestN : Int
  value : String
  status : ConsensusStatus
  deriving DecidableEq, Repr

def initSlot (view : Int) : PaxosSlot where
  n := view
  nP := -1
  nA := view
  vA := ""
  highestN := view
  value := ""
  status := .pending

/-- This record holds the fields of `PaxosImpl` that its handlers read or write. -/
structure PaxosImpl where
  view : Int
  highestSlot : Int
  lowestSlot : Int
  highestAcceptedSeq : Int
  missedHeartbeats : Int
  done : List Int
  slots : Int → Option PaxosSlot
  leaderDead : Bool
  leaderElectionHappened : Bool
  isDead : Bool
  paxosDb : RocksDBWrapper

/-- Every server starts in view zero without slots. -/
def PaxosImpl.initial (groupSize : Nat) : PaxosImpl where
  view := 0
  highestSlot := 0
  lowestSlot := 0
  highestAcceptedSeq := 0
  missedHeartbeats := 0
  done := List.replicate groupSize (-1)
  slots := fun _ => none
  leaderDead := false
  leaderElectionHappened := false
  isDead := false
  paxosDb := .empty

/-- The status field of a reply reads OK or Reject. -/
inductive Verdict where
  | ok
  | reject
  deriving DecidableEq, Repr

structure ElectRequest where
  view : Int
  deriving DecidableEq, Repr

structure ElectResponse where
  status : Verdict
  view : Int
  highestSeq : Int
  deriving DecidableEq, Repr

structure PrepareRequest where
  seq : Int
  proposalNumber : Int
  deriving DecidableEq, Repr

structure PrepareResponse where
  status : Verdict
  nA : Int
  vA : String
  highestN : Int
  latestDone : Int
  value : String
  deriving DecidableEq, Repr

structure AcceptRequest where
  seq : Int
  view : Int
  value : String
  deriving DecidableEq, Repr

structure AcceptResponse where
  status : Verdict
  latestDone : Int
  value : String
  view : Int
  deriving DecidableEq, Repr

structure DecideRequest where
  seq : Int
  value : String
  deriving DecidableEq, Repr

structure DecideResponse where
  latestDone : Int
  deriving DecidableEq, Repr

/-- A heartbeat carries whole slots; `ToProtobuf` and `fillSlot` copy every field of a slot. -/
structure HeartbeatRequest where
  id : Int
  view : Int
  done : List Int
  slots : Int → Option PaxosSlot

structure HeartbeatResponse where
  slots : Int → Option PaxosSlot

/-- The first section of `Start` and `StartOnForward` ends with one of these continuations. -/
inductive StartAction where
  | stop
  | newSlot (view : Int)
  | forward
  deriving DecidableEq, Repr

/-- The leader test compares the C++ remainder of the view with the server's index. -/
def leads {n : Nat} (me : Fin n) (view : Int) : Prop := view.tmod n = me.val

instance {n : Nat} (me : Fin n) (view : Int) : Decidable (leads me view) :=
  inferInstanceAs (Decidable (_ = _))

theorem leads_unique {n : Nat} {first second : Fin n} {view : Int}
    (one : leads first view) (two : leads second view) : first = second := by
  unfold leads at one two
  apply Fin.ext
  omega

/-- The address of the leader exists in the stub map only for a remainder in range. -/
def leaderOf (n : Nat) (view : Int) : Option (Fin n) :=
  if inside : 0 ≤ view.tmod n ∧ view.tmod n < n then
    some ⟨(view.tmod n).toNat, by omega⟩
  else none

def garbageCollected : HandlerError := .invalidArgumentStatus "This slot has been garbage collected"

namespace PaxosImpl

/-- This slot is what the pointer returned by `addSlots` refers to. -/
def slotAt (server : PaxosImpl) (seq : Int) : PaxosSlot :=
  (server.slots seq).getD (initSlot server.view)

def setSlot (server : PaxosImpl) (seq : Int) (slot : PaxosSlot) : PaxosImpl :=
  { server with slots := Function.update server.slots seq (some slot) }

/-- Every call stamps the slot's accepted number with the current view. -/
def addSlots (server : PaxosImpl) (seq : Int) : PaxosImpl :=
  server.setSlot seq { server.slotAt seq with nA := server.view }

/-- A larger view always resets the failure detector. -/
def adoptView (server : PaxosImpl) (view : Int) : PaxosImpl :=
  { server with view := view, leaderDead := false, missedHeartbeats := 0 }

def raiseView (server : PaxosImpl) (view : Int) : PaxosImpl :=
  if view > server.view then server.adoptView view else server

def raiseAccepted (server : PaxosImpl) (seq : Int) : PaxosImpl :=
  if seq > server.highestAcceptedSeq then { server with highestAcceptedSeq := seq } else server

def raiseHighestSlot (server : PaxosImpl) (seq : Int) : PaxosImpl :=
  if seq > server.highestSlot then { server with highestSlot := seq } else server

def markDecided (server : PaxosImpl) (seq : Int) (value : String) : PaxosImpl :=
  server.setSlot seq { server.slotAt seq with status := .decided, value := value }

def latestDone {n : Nat} (server : PaxosImpl) (me : Fin n) : Int := server.done.getD me.val (-1)

/-- The request carries its view in 64 bits; the field `view` takes what is `kept` of it. -/
def electKeeping (server : PaxosImpl) (view kept : Int) : PaxosImpl × ElectResponse :=
  if view > server.view then
    (server.adoptView kept, ⟨.ok, kept, server.highestAcceptedSeq⟩)
  else if view = server.view then
    (server, ⟨.ok, server.view, server.highestAcceptedSeq⟩)
  else
    (server, ⟨.reject, server.view, 0⟩)

/-- `Elect` of any view that the wire can carry. -/
def electStored (server : PaxosImpl) (request : ElectRequest) : PaxosImpl × ElectResponse :=
  server.electKeeping request.view (asInt request.view)

/-- `Elect` of a view that fits the field, as the view of every server does. -/
def elect (server : PaxosImpl) (request : ElectRequest) : PaxosImpl × ElectResponse :=
  server.electKeeping request.view request.view

theorem electStored_eq_elect {server : PaxosImpl} {request : ElectRequest} (fits : FitsInt request.view) :
    server.electStored request = server.elect request := by
  unfold electStored elect
  rw [asInt_of_fits fits]

/-- A reply reports the slot's value only when the slot is decided. -/
def decidedText (slot : PaxosSlot) : String := if slot.status = .decided then slot.value else ""

def prepare {n : Nat} (server : PaxosImpl) (me : Fin n) (request : PrepareRequest) :
    PaxosImpl × Except HandlerError PrepareResponse :=
  if request.seq < server.lowestSlot then (server, .error garbageCollected)
  else
    let added := server.addSlots request.seq
    let slot := added.slotAt request.seq
    if request.proposalNumber > slot.nP then
      (added.setSlot request.seq { slot with nP := request.proposalNumber },
        .ok ⟨.ok, slot.nA, slot.vA, request.proposalNumber, server.latestDone me, decidedText slot⟩)
    else
      (added, .ok ⟨.reject, slot.nA, slot.vA, slot.nP, server.latestDone me, decidedText slot⟩)

def accept {n : Nat} (server : PaxosImpl) (me : Fin n) (request : AcceptRequest) :
    PaxosImpl × Except HandlerError AcceptResponse :=
  if request.seq < server.lowestSlot then (server, .error garbageCollected)
  else
    let added := server.addSlots request.seq
    let slot := added.slotAt request.seq
    let moved := added.raiseView request.view
    if request.view ≥ slot.nA then
      let stored := moved.setSlot request.seq { slot with nA := request.view, vA := request.value }
      (stored.raiseAccepted request.seq,
        .ok ⟨.ok, server.latestDone me, decidedText slot, slot.nA⟩)
    else
      (moved, .ok ⟨.reject, server.latestDone me, decidedText slot, slot.nA⟩)

/-- The slot is marked before its value is parsed and stored. -/
def learn {n : Nat} (server : PaxosImpl) (me : Fin n) (request : DecideRequest) (committed : Bool) :
    PaxosImpl × Except HandlerError DecideResponse :=
  if request.seq < server.lowestSlot then (server, .error garbageCollected)
  else
    let added := (server.addSlots request.seq).raiseHighestSlot request.seq
    if (added.slotAt request.seq).status ≠ .decided then
      let marked := added.markDecided request.seq request.value
      match getKeyValue request.value with
      | .error failure => (marked, .error failure)
      | .ok (key, value) =>
          ({ marked with paxosDb := (marked.paxosDb.put key value committed).1 },
            .ok ⟨server.latestDone me⟩)
    else
      (added, .ok ⟨server.latestDone me⟩)

/-- The first locked section of `Start` chooses who runs the proposal. The round gets the view just
tested; the source copies it after unlocking `mu`. -/
def start {n : Nat} (server : PaxosImpl) (me : Fin n) (seq : Int) : PaxosImpl × StartAction :=
  if seq < server.lowestSlot then (server, .stop)
  else
    let added := server.addSlots seq
    if (added.slotAt seq).status ≠ .decided ∧ ¬ added.isDead then
      if leads me added.view then
        (added, if added.leaderDead then .stop else .newSlot added.view)
      else (added, .forward)
    else (added, .stop)

/-- `StartOnForward` calls the leader unless the server may propose itself. -/
def startOnForward {n : Nat} (server : PaxosImpl) (me : Fin n) (seq : Int) :
    PaxosImpl × StartAction :=
  let added := server.addSlots seq
  if (added.slotAt seq).status ≠ .decided ∧ leads me added.view ∧ ¬ added.leaderDead then
    (added, .newSlot added.view)
  else (added, .forward)

/-- Both ends of a heartbeat mark the received slots as decided, without storing their pairs. -/
def copyDecided (server : PaxosImpl) (received : Int → Option PaxosSlot) : PaxosImpl :=
  { server with slots := fun seq =>
      match received seq with
      | none => server.slots seq
      | some other =>
          let slot := { server.slotAt seq with nA := server.view }
          some (if slot.status ≠ .decided then
            { slot with status := .decided, value := other.value } else slot) }

/-- The decided slots are copied into fresh slots of the given status. -/
def decidedCopies (server : PaxosImpl) (status : ConsensusStatus) : Int → Option PaxosSlot :=
  fun seq => (server.slots seq).bind fun slot =>
    if slot.status = .decided then
      some { initSlot server.view with value := slot.value, status := status } else none

def heartbeat {n : Nat} (server : PaxosImpl) (me : Fin n) (request : HeartbeatRequest) :
    PaxosImpl × Except HandlerError HeartbeatResponse :=
  if (me.val : Int) = request.id then
    ({ server with missedHeartbeats := 0 }, .ok ⟨fun _ => none⟩)
  else if server.view > request.view then
    (server, .error (.abortedStatus "your view is lower than mine"))
  else
    let synced := { server.raiseView request.view with done := request.done, missedHeartbeats := 0 }
    let reply := fun seq => if (request.slots seq).isSome then none else
      synced.decidedCopies .decided seq
    (synced.copyDecided request.slots, .ok ⟨reply⟩)

/-- `SendHeartbeats` builds its map of decided slots once; the copies stay pending. -/
def heartbeatSlots {n : Nat} (server : PaxosImpl) (me : Fin n) : Option (Int → Option PaxosSlot) :=
  if leads me server.view then some (server.decidedCopies .pending) else none

/-- The detector starts an election after the fourth missed heartbeat. -/
def detectLeaderFailure {n : Nat} (server : PaxosImpl) (me : Fin n) :
    PaxosImpl × Bool × Option (Int × Int) :=
  let missed := server.missedHeartbeats + 1
  if missed > 3 then
    let mod := server.view.tmod n
    let election := if mod < me.val then some (server.view, (me.val : Int) - mod)
      else if mod > me.val then some (server.view, (me.val : Int) + n - mod)
      else none
    ({ server with missedHeartbeats := 0, leaderDead := true, leaderElectionHappened := true },
      true, election)
  else ({ server with missedHeartbeats := missed }, false, none)

/-- The detached timer of a detection ends the quiet period. -/
def quietPeriodEnds (server : PaxosImpl) : PaxosImpl := { server with leaderElectionHappened := false }

end PaxosImpl

end Chubby.Paxos
