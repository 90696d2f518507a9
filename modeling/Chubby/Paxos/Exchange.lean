/-
This file proves that a heartbeat and its reply join the decided slots of two servers.
-/

import Chubby.Library.Extension
import Chubby.Paxos.CatchUp
import Chubby.Paxos.WriteOnce

namespace Chubby.Paxos

open Chubby.Library

variable {n : Nat}

namespace PaxosImpl

/-- The leader has become `later` when the reply to its request arrives. -/
def exchange (me peer : Fin n) (leader later follower : PaxosImpl) (done : List Int) :
    Option (PaxosImpl × PaxosImpl) :=
  match leader.heartbeatSlots me with
  | none => none
  | some slots =>
      let handled := follower.heartbeat peer ⟨me.val, leader.view, done, slots⟩
      match handled.2 with
      | .error _ => none
      | .ok response => some (later.copyDecided response.slots, handled.1)

theorem hasDecided_iff {server : PaxosImpl} {seq : Int} {value : String} :
    server.HasDecided seq value ↔ server.decidedValue seq = some value := by
  unfold HasDecided PaxosImpl.decidedValue slotAt
  cases server.slots seq with
  | none => simp [initSlot]
  | some slot => simp

/-- The copies of the decided slots are the decided map, whatever status they carry. -/
theorem decidedCopies_map (server : PaxosImpl) (status : ConsensusStatus) (seq : Int) :
    (server.decidedCopies status seq).map PaxosSlot.value = server.decidedValue seq := by
  unfold decidedCopies PaxosImpl.decidedValue slotAt
  cases server.slots seq with
  | none => simp [initSlot]
  | some slot => by_cases decided : slot.status = .decided <;> simp [decided]

/-- The request of a leader carries its decided map. -/
theorem heartbeatSlots_map {server : PaxosImpl} {me : Fin n} {slots : Int → Option PaxosSlot}
    (built : server.heartbeatSlots me = some slots) (seq : Int) :
    (slots seq).map PaxosSlot.value = server.decidedValue seq := by
  unfold heartbeatSlots at built
  split at built
  · cases built
    exact decidedCopies_map server .pending seq
  · cases built

theorem copyDecided_extends (server : PaxosImpl) (received : Int → Option PaxosSlot) :
    (server.copyDecided received).decidedValue =
      extend server.decidedValue fun seq => (received seq).map PaxosSlot.value :=
  funext (copyDecided_decidedValue server received)

theorem syncedWith_decidedValue (server : PaxosImpl) (request : HeartbeatRequest) :
    (server.syncedWith request).decidedValue = server.decidedValue := by
  funext seq
  exact (quiet_raiseView server request.view).decidedValue seq

/-- A follower that processes a heartbeat extends its decided map by that of the request and replies
with its own entries that the request does not carry. -/
theorem heartbeat_exchanges {server : PaxosImpl} {me : Fin n} {request : HeartbeatRequest}
    {known : Int → Option String} (processed : request.processedBy me server)
    (carried : ∀ seq, (request.slots seq).map PaxosSlot.value = known seq) :
    (server.heartbeat me request).1.decidedValue = extend server.decidedValue known ∧
      ∃ response, (server.heartbeat me request).2 = .ok response ∧
        (fun seq => (response.slots seq).map PaxosSlot.value) = without server.decidedValue known := by
  have offers : (fun seq => (request.slots seq).map PaxosSlot.value) = known := funext carried
  cases server.heartbeat_cases me request with
  | own own => exact absurd own processed.1
  | refused behind => exact absurd processed.2 (Int.not_le.mpr behind)
  | processed _ _ same =>
      rw [same]
      constructor
      · rw [copyDecided_extends, syncedWith_decidedValue, offers]
      · refine ⟨_, rfl, funext fun seq => ?_⟩
        have present : (request.slots seq).isSome = (known seq).isSome := by
          rw [← carried seq, Option.isSome_map]
        have copies := decidedCopies_map (server.syncedWith request) .decided seq
        rw [syncedWith_decidedValue] at copies
        unfold without
        dsimp only
        rw [present]
        split
        · rfl
        · exact copies

end PaxosImpl

/-- Every run of a server keeps its decided map. -/
theorem Sections.run_decidedValue {me : Fin n} {s final : Sections} {labels : List Section}
    (ran : run (Sections.step me) s labels = some final) {seq : Int} {value : String}
    (decided : s.server.decidedValue seq = some value) : final.server.decidedValue seq = some value := by
  have once : s.server.WritesOnce final.server := by
    refine @run_invariant_of_step _ _ _ (fun state => s.server.WritesOnce state.server) ?_ _ _ _
      (.refl s.server) ran
    intro state label next before taken
    exact before.trans (Sections.step_once taken)
  exact PaxosImpl.hasDecided_iff.mp (once.keeps (PaxosImpl.hasDecided_iff.mpr decided))

/-- An exchange succeeds with a follower of no larger view, and it extends the decided map of each side
by the other's, whatever the leader has done between its request and the reply. -/
theorem exchange_union {me peer : Fin n} (other : peer ≠ me) {s later : Sections} {labels : List Section}
    {follower : PaxosImpl} (leader : leads me s.server.view) (behind : follower.view ≤ s.server.view)
    (ran : run (Sections.step me) s labels = some later) (done : List Int) :
    ∃ leader' follower',
      PaxosImpl.exchange me peer s.server later.server follower done = some (leader', follower') ∧
      follower'.decidedValue = extend follower.decidedValue s.server.decidedValue ∧
      leader'.decidedValue = extend later.server.decidedValue follower.decidedValue ∧
      (∀ seq value, s.server.decidedValue seq = some value ∨ later.server.decidedValue seq = some value →
        leader'.decidedValue seq = some value) ∧
      (∀ seq value, follower.decidedValue seq = some value → follower'.decidedValue seq = some value) ∧
      ∀ seq, later.server.decidedValue seq = none → follower.decidedValue seq = none →
        leader'.decidedValue seq = none ∧ follower'.decidedValue seq = none := by
  have kept (seq : Int) (value : String) (decided : s.server.decidedValue seq = some value) :
      later.server.decidedValue seq = some value := Sections.run_decidedValue ran decided
  have built : s.server.heartbeatSlots me = some (s.server.decidedCopies .pending) := if_pos leader
  let request : HeartbeatRequest := ⟨me.val, s.server.view, done, s.server.decidedCopies .pending⟩
  have processed : request.processedBy peer follower := by
    refine ⟨fun same => other (Fin.ext ?_), behind⟩
    exact Int.ofNat.inj same
  obtain ⟨follows, response, replied, offered⟩ := PaxosImpl.heartbeat_exchanges processed
    (PaxosImpl.heartbeatSlots_map built)
  have leads' : (later.server.copyDecided response.slots).decidedValue =
      extend later.server.decidedValue follower.decidedValue := by
    rw [PaxosImpl.copyDecided_extends, offered, extend_without kept]
  refine ⟨later.server.copyDecided response.slots, (follower.heartbeat peer request).1, ?_, follows,
    leads', ?_, ?_, ?_⟩
  · unfold PaxosImpl.exchange
    rw [built]
    dsimp only
    rw [replied]
  · intro seq value decided
    rw [leads']
    exact extend_of_some (decided.elim (kept seq value) id) _
  · intro seq value decided
    rw [follows]
    exact extend_of_some decided _
  · intro seq missing open_
    have unknown : s.server.decidedValue seq = none := by
      cases found : s.server.decidedValue seq with
      | none => rfl
      | some value => rw [kept seq value found] at missing; cases missing
    rw [leads', follows]
    exact ⟨extend_eq_none.mpr ⟨missing, open_⟩, extend_eq_none.mpr ⟨open_, unknown⟩⟩

/-- The leader has decided slot 1 and learns slot 3 while its heartbeat is on its way. -/
def sharedLeader (me : Fin 2) : Sections := ⟨((PaxosImpl.initial 2).learn me ⟨1, "x#SHARED"⟩ true).1, [], []⟩

/-- The follower has another value for slot 1, and slot 2. -/
def freeFollower (peer : Fin 2) : PaxosImpl :=
  ((((PaxosImpl.initial 2).learn peer ⟨1, "x#FREE"⟩ true).1).learn peer ⟨2, "y#SHARED"⟩ true).1

theorem exchange_union_conflicting : ∃ later leader' follower',
    run (Sections.step (0 : Fin 2)) (sharedLeader 0) [.other (.learn ⟨3, "z#SHARED"⟩ true)] = some later ∧
      PaxosImpl.exchange (0 : Fin 2) 1 (sharedLeader 0).server later.server (freeFollower 1) [] =
        some (leader', follower') ∧
      [1, 2, 3].map leader'.decidedValue = [some "x#SHARED", some "y#SHARED", some "z#SHARED"] ∧
      [1, 2, 3].map follower'.decidedValue = [some "x#FREE", some "y#SHARED", none] := by
  obtain ⟨later, ran, learned⟩ : ∃ later, run (Sections.step (0 : Fin 2)) (sharedLeader 0)
      [.other (.learn ⟨3, "z#SHARED"⟩ true)] = some later ∧
      [1, 2, 3].map later.server.decidedValue = [some "x#SHARED", none, some "z#SHARED"] :=
    ⟨_, rfl, by decide⟩
  obtain ⟨leader', follower', exchanged, follows, leads', _⟩ := exchange_union (by decide : (1 : Fin 2) ≠ 0)
    (by decide : leads (0 : Fin 2) (sharedLeader 0).server.view)
    (by decide : (freeFollower 1).view ≤ (sharedLeader 0).server.view) ran []
  simp only [List.map_cons, List.map_nil, List.cons.injEq, and_true] at learned
  obtain ⟨first, second, third⟩ := learned
  refine ⟨later, leader', follower', ran, exchanged, ?_, ?_⟩
  · rw [leads']
    simp only [List.map_cons, List.map_nil, extend, first, second, third]
    decide
  · rw [follows]
    decide

end Chubby.Paxos
