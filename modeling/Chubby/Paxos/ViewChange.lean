/-
This file proves that a server which changes its view goes to a larger one and trusts its leader anew.
-/

import Chubby.Paxos.History
import Chubby.Paxos.Sections

namespace Chubby.Paxos

open Chubby.Library

variable {n : Nat}

namespace PaxosImpl

/-- The step sets the view to a larger one and clears what the failure detector has counted. -/
structure MovesOn (before after : PaxosImpl) : Prop where
  larger : before.view < after.view
  trusted : after.leaderDead = false
  noneMissed : after.missedHeartbeats = 0

/-- The view and the judgement of its leader stay, or a larger view starts afresh; the quiet period
goes on. -/
structure FreshStart (before after : PaxosImpl) : Prop where
  view : (after.view = before.view ∧ after.leaderDead = before.leaderDead) ∨ MovesOn before after
  leaderElectionHappened : after.leaderElectionHappened = before.leaderElectionHappened

/-- The view and the judgement of its leader stay, or the leader is trusted; the quiet period goes on. -/
structure TrustsAnew (before after : PaxosImpl) : Prop where
  view : (after.view = before.view ∧ after.leaderDead = before.leaderDead) ∨ after.leaderDead = false
  leaderElectionHappened : after.leaderElectionHappened = before.leaderElectionHappened

theorem FreshStart.trustsAnew {before after : PaxosImpl} (fresh : FreshStart before after) :
    TrustsAnew before after :=
  ⟨fresh.view.imp id MovesOn.trusted, fresh.leaderElectionHappened⟩

theorem FreshStart.of_same {before after : PaxosImpl} (view : after.view = before.view)
    (leaderDead : after.leaderDead = before.leaderDead)
    (leaderElectionHappened : after.leaderElectionHappened = before.leaderElectionHappened) :
    FreshStart before after := ⟨.inl ⟨view, leaderDead⟩, leaderElectionHappened⟩

theorem FreshStart.refl (server : PaxosImpl) : FreshStart server server := .of_same rfl rfl rfl

/-- A step that keeps the detector's fields may follow a fresh start. -/
theorem FreshStart.keeping {first second third : PaxosImpl} (fresh : FreshStart first second)
    (view : third.view = second.view) (leaderDead : third.leaderDead = second.leaderDead)
    (missedHeartbeats : third.missedHeartbeats = second.missedHeartbeats ∨ third.missedHeartbeats = 0)
    (leaderElectionHappened : third.leaderElectionHappened = second.leaderElectionHappened) :
    FreshStart first third := by
  refine ⟨?_, leaderElectionHappened.trans fresh.leaderElectionHappened⟩
  obtain ⟨sameView, sameDead⟩ | moves := fresh.view
  · exact .inl ⟨view.trans sameView, leaderDead.trans sameDead⟩
  · refine .inr ⟨by rw [view]; exact moves.larger, leaderDead.trans moves.trusted, ?_⟩
    exact missedHeartbeats.elim (fun same => same.trans moves.noneMissed) id

theorem fresh_adoptView {server : PaxosImpl} {view : Int} (larger : server.view < view) :
    FreshStart server (server.adoptView view) := ⟨.inr ⟨larger, rfl, rfl⟩, rfl⟩

theorem fresh_raiseView (server : PaxosImpl) (view : Int) : FreshStart server (server.raiseView view) := by
  unfold raiseView
  split
  next larger => exact fresh_adoptView larger
  · exact .refl server

theorem fresh_addSlots (server : PaxosImpl) (seq : Int) : FreshStart server (server.addSlots seq) :=
  .of_same rfl rfl rfl

theorem fresh_elect (server : PaxosImpl) (request : ElectRequest) :
    FreshStart server (server.elect request).1 := by
  unfold elect electKeeping
  split
  next larger => exact fresh_adoptView larger
  · split <;> exact .refl server

/-- A view that was too wide for its field starts with the same trust, whatever is kept of it. -/
theorem trustsAnew_electStored (server : PaxosImpl) (request : ElectRequest) :
    TrustsAnew server (server.electStored request).1 := by
  unfold electStored electKeeping
  split
  · exact ⟨.inr rfl, rfl⟩
  · split <;> exact (FreshStart.refl server).trustsAnew

theorem fresh_prepare (server : PaxosImpl) (me : Fin n) (request : PrepareRequest) :
    FreshStart server (server.prepare me request).1 := by
  cases server.prepare_cases me request with
  | collected _ same => rw [same]; exact .refl server
  | promises _ _ same => rw [same]; exact .of_same rfl rfl rfl
  | rejects _ _ same => rw [same]; exact fresh_addSlots server request.seq

theorem fresh_raiseAccepted {before after : PaxosImpl} (fresh : FreshStart before after) (seq : Int) :
    FreshStart before (after.raiseAccepted seq) := by
  unfold raiseAccepted
  split
  · exact fresh.keeping rfl rfl (.inl rfl) rfl
  · exact fresh

/-- `Accept` raises the view after it has added the slot. -/
theorem fresh_addedView (server : PaxosImpl) (seq view : Int) :
    FreshStart server ((server.addSlots seq).raiseView view) := by
  unfold raiseView
  split
  next larger => exact ⟨.inr ⟨larger, rfl, rfl⟩, rfl⟩
  · exact fresh_addSlots server seq

theorem fresh_accept (server : PaxosImpl) (me : Fin n) (request : AcceptRequest) :
    FreshStart server (server.accept me request).1 := by
  have added := fresh_addedView server request.seq request.view
  cases server.accept_cases me request with
  | collected _ same => rw [same]; exact .refl server
  | accepts _ _ same =>
      have stored (slot : PaxosSlot) : FreshStart server
          (((server.addSlots request.seq).raiseView request.view).setSlot request.seq slot) :=
        added.keeping rfl rfl (.inl rfl) rfl
      rw [same]
      exact fresh_raiseAccepted (stored _) request.seq
  | rejects _ _ same => rw [same]; exact added

theorem fresh_learn (server : PaxosImpl) (me : Fin n) (request : DecideRequest) (committed : Bool) :
    FreshStart server (server.learn me request committed).1 := by
  have touched : FreshStart server ((server.addSlots request.seq).raiseHighestSlot request.seq) := by
    unfold raiseHighestSlot
    split
    · exact .of_same rfl rfl rfl
    · exact fresh_addSlots server request.seq
  cases server.learn_cases me request committed with
  | collected _ same => rw [same]; exact .refl server
  | settled _ _ same => rw [same]; exact touched
  | decides _ _ paxosDb same => rw [same]; exact touched.keeping rfl rfl (.inl rfl) rfl

theorem fresh_heartbeat (server : PaxosImpl) (me : Fin n) (request : HeartbeatRequest) :
    FreshStart server (server.heartbeat me request).1 := by
  cases server.heartbeat_cases me request with
  | own _ same => rw [same]; exact .of_same rfl rfl rfl
  | refused _ same => rw [same]; exact .refl server
  | processed _ _ same =>
      rw [same]
      exact (fresh_raiseView server request.view).keeping rfl rfl (.inr rfl) rfl

theorem fresh_start (server : PaxosImpl) (me : Fin n) (seq : Int) :
    FreshStart server (server.start me seq).1 := by
  obtain ⟨_, same⟩ | ⟨_, same⟩ := server.start_server me seq <;> rw [same]
  · exact .refl server
  · exact fresh_addSlots server seq

theorem fresh_startOnForward (server : PaxosImpl) (me : Fin n) (seq : Int) :
    FreshStart server (server.startOnForward me seq).1 := by
  rw [startOnForward_server]
  exact fresh_addSlots server seq

theorem fresh_concludeElection (groupSize : Nat) (server : PaxosImpl) (target : Int) (tally : ElectTally) :
    FreshStart server (concludeElection groupSize server target tally).1 := by
  have adopted (condition : Prop) [Decidable condition]
      (larger : condition → server.view < tally.highestView) :
      FreshStart server (if condition then server.adoptView tally.highestView else server) := by
    split
    next holds => exact fresh_adoptView (larger holds)
    · exact .refl server
  unfold concludeElection
  split
  · exact adopted _ And.left
  · split
    · split
      next success => exact (fresh_adoptView success.2).keeping rfl rfl (.inl rfl) rfl
      · exact adopted _ id
    · exact .refl server

/-- A detection keeps the view; it fires when it counts the fourth missed heartbeat. -/
theorem detectLeaderFailure_cases (server : PaxosImpl) (me : Fin n) :
    (server.detectLeaderFailure me).1.view = server.view ∧
      (((server.detectLeaderFailure me).2.1 = true ∧ (server.detectLeaderFailure me).1.leaderDead = true ∧
        (server.detectLeaderFailure me).1.leaderElectionHappened = true) ∨
      ((server.detectLeaderFailure me).2.1 = false ∧
        (server.detectLeaderFailure me).1.leaderDead = server.leaderDead ∧
        (server.detectLeaderFailure me).1.leaderElectionHappened = server.leaderElectionHappened)) := by
  unfold detectLeaderFailure
  dsimp only
  split
  · exact ⟨rfl, .inl ⟨rfl, rfl, rfl⟩⟩
  · exact ⟨rfl, .inr ⟨rfl, rfl, rfl⟩⟩

theorem ages_accept {server : PaxosImpl} (stamped : server.Stamped) (me : Fin n) (request : AcceptRequest) :
    Ages server (server.accept me request).1 := by
  have added := ages_addSlots stamped request.seq
  have moved := added.trans (ages_raiseView added.stamped request.view)
  cases server.accept_cases me request with
  | collected _ same => rw [same]; exact .refl stamped
  | accepts _ current same =>
      have there : ((server.addSlots request.seq).raiseView request.view).slotAt request.seq =
          { server.slotAt request.seq with nA := server.view } := by
        rw [slotAt_raiseView _ _ _ (by simp [addSlots, setSlot]), slotAt_addSlots_self]
      have stored : Ages server (((server.addSlots request.seq).raiseView request.view).setSlot request.seq
          { server.slotAt request.seq with nA := request.view, vA := request.value }) := by
        refine moved.trans (ages_setSlot moved.stamped ?_ ?_)
        · rw [there]
          exact current
        · rw [raiseView_view]
          exact le_max_right _ _
      rw [same]
      exact stored.trans (ages_raiseAccepted stored.stamped request.seq)
  | rejects _ _ same => rw [same]; exact moved

end PaxosImpl

/-- One handler or thread of a server that runs as a whole. -/
inductive HandlerCall where
  | elect (request : ElectRequest)
  | accept (request : AcceptRequest)
  | other (call : ServerCall)

def HandlerCall.run (me : Fin n) (server : PaxosImpl) : HandlerCall → PaxosImpl
  | .elect request => (server.elect request).1
  | .accept request => (server.accept me request).1
  | .other call => call.run me server

/-- Every step of the cluster leaves a server as it was or runs one call on it. -/
theorem Event.handlerCalled {c c' : Cluster n} {label : Label n} (event : Event c label c') (i : Fin n) :
    c'.servers i = c.servers i ∨ ∃ call : HandlerCall, c'.servers i = call.run i (c.servers i) := by
  cases event.written i with
  | nothing after => exact .inl after
  | @start seq after => exact .inr ⟨.other (.start seq), after⟩
  | @startOnForward seq after => exact .inr ⟨.other (.startOnForward seq), after⟩
  | @begins r round named found waits own free entered after =>
      exact .inr ⟨.other (.raiseNumber round.seq), after⟩
  | @hears r round number highestN outcomes outcome found prepares own heard after =>
      exact .inr ⟨.other (.noteHighestN round.seq _), after⟩
  | @raiseView view after => exact .inr ⟨.other (.adoptAccepted view), after⟩
  | @concludeElection e attempt campaign outcomes found self asks asked after =>
      subst self
      exact .inr ⟨.other (.concludeElection campaign.target (electTally outcomes)), after⟩
  | detectLeaderFailure after => exact .inr ⟨.other .detectLeaderFailure, after⟩
  | quietPeriodEnds after => exact .inr ⟨.other .quietPeriodEnds, after⟩
  | @prepare k r request named sent after => exact .inr ⟨.other (.prepare request), after⟩
  | @accept k r request named sent handled after => exact .inr ⟨.accept request, after⟩
  | @learn k r request named sent after => exact .inr ⟨.other (.learn request true), after⟩
  | @elect request after => exact .inr ⟨.elect request, after⟩
  | @heartbeat k b request named sent after => exact .inr ⟨.other (.heartbeat request), after⟩
  | @copyDecided k b j response named sent after => exact .inr ⟨.other (.heartbeatReply response), after⟩

/-- Every call but the detector and its timer gives a fresh start or none. -/
theorem ServerCall.fresh (server : PaxosImpl) (me : Fin n) {call : ServerCall}
    (undetected : call ≠ .detectLeaderFailure) (untimed : call ≠ .quietPeriodEnds) :
    server.FreshStart (call.run me server) := by
  cases call with
  | prepare request => exact PaxosImpl.fresh_prepare server me request
  | learn request committed => exact PaxosImpl.fresh_learn server me request committed
  | heartbeat request => exact PaxosImpl.fresh_heartbeat server me request
  | heartbeatReply response => exact .of_same rfl rfl rfl
  | start seq => exact PaxosImpl.fresh_start server me seq
  | startOnForward seq => exact PaxosImpl.fresh_startOnForward server me seq
  | raiseNumber seq => exact .of_same rfl rfl rfl
  | noteHighestN seq highestN => exact .of_same rfl rfl rfl
  | adoptAccepted view => exact PaxosImpl.fresh_raiseView server view
  | detectLeaderFailure => exact absurd rfl undetected
  | quietPeriodEnds => exact absurd rfl untimed
  | concludeElection target tally => exact PaxosImpl.fresh_concludeElection n server target tally

/-- A call that changes the view moves on to a larger one. -/
theorem HandlerCall.movesOn {server : PaxosImpl} {me : Fin n} {call : HandlerCall}
    (changed : (call.run me server).view ≠ server.view) : server.MovesOn (call.run me server) := by
  have moved (fresh : server.FreshStart (call.run me server)) : server.MovesOn (call.run me server) :=
    fresh.view.resolve_left fun same => changed same.1
  cases call with
  | elect request => exact moved (PaxosImpl.fresh_elect server request)
  | accept request => exact moved (PaxosImpl.fresh_accept server me request)
  | other call =>
      by_cases detects : call = .detectLeaderFailure
      · subst detects
        exact absurd (server.detectLeaderFailure_cases me).1 changed
      · by_cases ends : call = .quietPeriodEnds
        · subst ends
          exact absurd rfl changed
        · exact moved (call.fresh server me detects ends)

theorem HandlerCall.ages {server : PaxosImpl} (stamped : server.Stamped) (me : Fin n) (call : HandlerCall) :
    server.Ages (call.run me server) := by
  cases call with
  | elect request => exact PaxosImpl.ages_elect stamped request
  | accept request => exact PaxosImpl.ages_accept stamped me request
  | other call => exact call.ages stamped me

/-- In every reachable state no server has a slot with an accepted number above its view. -/
theorem reached_stamped {c : Cluster n} (reached : c.Reached) (i : Fin n) : (c.servers i).Stamped := by
  refine @reachable_invariant _ _ _ _ _ (fun c => ∀ i, (c.servers i).Stamped) ?_ ?_ reached i
  · intro i seq slot found
    cases found
  · intro c label c' _ stamped taken i
    obtain same | ⟨call, same⟩ := (Cluster.step_event taken).handlerCalled i
    · rw [same]
      exact stamped i
    · rw [same]
      exact (call.ages (stamped i) i).stamped

/-- A step that changes a view moves the server on to a larger one, and the accepted numbers of its
slots never pass the view. -/
theorem viewChanges_fresh {c : Cluster n} (reached : c.Reached) :
    (∀ label c', c.step label = some c' → ∀ i, (c'.servers i).view ≠ (c.servers i).view →
      (c.servers i).view < (c'.servers i).view ∧ (c'.servers i).leaderDead = false ∧
        (c'.servers i).missedHeartbeats = 0) ∧
      ∀ i seq slot, (c.servers i).slots seq = some slot → slot.nA ≤ (c.servers i).view := by
  refine ⟨fun label c' taken i changed => ?_, reached_stamped reached⟩
  obtain same | ⟨call, same⟩ := (Cluster.step_event taken).handlerCalled i
  · rw [same] at changed
    exact absurd rfl changed
  · rw [same] at changed ⊢
    have moves := HandlerCall.movesOn changed
    exact ⟨moves.larger, moves.trusted, moves.noneMissed⟩

/-- Both servers give up on the leader of view 0, and server 1 asks for view 1. -/
def bothSuspect : List (Label 2) :=
  List.replicate 4 (.detect ⟨0, Nat.two_pos⟩) ++ List.replicate 4 (.detect ⟨1, Nat.one_lt_two⟩)

theorem viewChanges_fresh_bothSuspect : ∃ c c' : Cluster 2, c.Reached ∧ c.step (.deliver 0) = some c' ∧
    (c.servers 0).leaderDead = true ∧ (c.servers 0).view < (c'.servers 0).view ∧
      (c'.servers 0).leaderDead = false ∧ (c'.servers 0).missedHeartbeats = 0 := by
  obtain ⟨c, ran, checked⟩ := (Option.any_eq_true _ _).mp (by decide +kernel :
    (run Cluster.step (Cluster.initial 2) bothSuspect).any (fun c => (c.step (.deliver 0)).any fun c' =>
      decide ((c.servers 0).leaderDead = true ∧ (c'.servers 0).view ≠ (c.servers 0).view)) = true)
  obtain ⟨c', taken, facts⟩ := (Option.any_eq_true _ _).mp checked
  obtain ⟨dead, changed⟩ := of_decide_eq_true facts
  have reached : c.Reached := ⟨bothSuspect, ran⟩
  exact ⟨c, c', reached, taken, dead, (viewChanges_fresh reached).1 _ c' taken 0 changed⟩

end Chubby.Paxos
