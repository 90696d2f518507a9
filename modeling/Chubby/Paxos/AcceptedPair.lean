/-
This file proves when the accepted pair of a slot is one that its server accepted.
-/

import Chubby.Paxos.Threads
import Chubby.Paxos.SlotEffects

namespace Chubby.Paxos

open Chubby.Library

variable {n : Nat}

/-- The accepted pair of every slot, and every pair that a reply to Prepare reports, was accepted by
the server in one Accept. -/
structure PairsReal (c : Cluster n) : Prop where
  slots : ∀ i seq nA vA, (c.servers i).acceptedPair seq = some (nA, vA) → Voted c i seq nA vA
  replies : ∀ r i promise, .prepareReply r i promise ∈ c.msgs → promise.response.vA ≠ "" →
    ∃ request, .prepareRequest r i request ∈ c.msgs ∧
      Voted c i request.seq promise.response.nA promise.response.vA

/-- A slot with an accepted value is stamped only in the view of its accepted number. -/
def StampsKeep (c : Cluster n) (label : Label n) : Prop :=
  ∀ i seq view, (c.effect label i seq).stamp = some view →
    ∀ nA vA, (c.servers i).acceptedPair seq = some (nA, vA) → view = nA

/-- The accepted number lies between the votes for its slot and the view of its server. -/
structure PairBounds (c : Cluster n) (i : Fin n) (seq nA : Int) : Prop where
  view : nA ≤ (c.servers i).view
  votes : ∀ view value, Voted c i seq view value → view ≤ nA

theorem pair_bounds {c : Cluster n} (reached : c.Reached) {i : Fin n} {seq nA : Int} {vA : String}
    (pair : (c.servers i).acceptedPair seq = some (nA, vA)) : PairBounds c i seq nA := by
  revert pair
  revert vA nA seq i
  refine @reachable_invariant _ _ _ _ c (fun c => ∀ {i : Fin n} {seq nA : Int} {vA : String},
    (c.servers i).acceptedPair seq = some (nA, vA) → PairBounds c i seq nA) ?_ ?_ reached
  · intro i seq nA vA pair
    cases pair
  · intro c label c' before bounds taken i seq nA vA pair
    have follows := step_follows taken i
    rw [follows.pair seq] at pair
    obtain ⟨untouched, kept⟩ | ⟨stamp, old, found⟩ | voted := SlotEffect.pair_eq_some pair
    · have bound := bounds kept
      refine ⟨bound.view.trans ((Cluster.step_event taken).servers i).view_mono, ?_⟩
      intro view value voted
      apply bound.votes view value
      exact ((voted_step_iff taken).mp voted).resolve_right (by simp [untouched])
    · obtain ⟨lower, upper⟩ := follows.range seq nA stamp
      have bound := bounds found
      refine ⟨upper, fun view value voted => ?_⟩
      have earlier := ((voted_step_iff taken).mp voted).resolve_right fun now => by
        rw [now] at stamp
        cases stamp
      exact (bound.votes view value earlier).trans (bound.view.trans lower)
    · obtain ⟨k, r, rfl, sent, allowed⟩ := effect_voted voted
      have accepted : Voted c' i seq nA vA := (voted_step_iff taken).mpr (.inr voted)
      refine ⟨(Voted.bounded (before.step taken) accepted).1, fun view value other => ?_⟩
      rcases (voted_step_iff taken).mp other with earlier | now
      · exact (Voted.bounded before earlier).1.trans allowed.2
      · rw [voted] at now
        cases now
        exact le_rfl

/-- A reply to Prepare reports the pair that the handler leaves in the slot. -/
theorem prepare_reports {server : PaxosImpl} {me : Fin n} {request : PrepareRequest}
    {response : PrepareResponse} (replied : (server.prepare me request).2 = .ok response)
    (nonempty : response.vA ≠ "") :
    (server.prepare me request).1.acceptedPair request.seq = some (response.nA, response.vA) := by
  cases server.prepare_cases me request with
  | collected _ same => rw [same] at replied; cases replied
  | promises _ _ same =>
      rw [same] at replied ⊢
      cases replied
      unfold PaxosImpl.acceptedPair PaxosSlot.acceptedPair
      rw [PaxosImpl.slotAt_setSlot_self, PaxosImpl.slotAt_addSlots_self]
      exact if_neg nonempty
  | rejects _ _ same =>
      rw [same] at replied ⊢
      cases replied
      unfold PaxosImpl.acceptedPair PaxosSlot.acceptedPair
      rw [PaxosImpl.slotAt_addSlots_self]
      exact if_neg nonempty

/-- One step keeps the pairs real exactly when it stamps no accepted value in another view. -/
theorem pairsReal_step {c c' : Cluster n} {label : Label n} (reached : c.Reached) (real : PairsReal c)
    (taken : c.step label = some c') : PairsReal c' ↔ StampsKeep c label := by
  constructor
  · intro after i seq view stamp nA vA pair
    have follows := step_follows taken i
    have moved : (c'.servers i).acceptedPair seq = some (view, vA) := by
      rw [follows.pair seq, SlotEffect.pair_of_stamp stamp, pair]
      rfl
    have bound := pair_bounds reached pair
    obtain ⟨lower, _⟩ := follows.range seq view stamp
    rcases (voted_step_iff taken).mp (after.slots i seq view vA moved) with earlier | now
    · exact le_antisymm (bound.votes view vA earlier) (bound.view.trans lower)
    · rw [now] at stamp
      cases stamp
  · intro keep
    have slots : ∀ i seq nA vA, (c'.servers i).acceptedPair seq = some (nA, vA) →
        Voted c' i seq nA vA := by
      intro i seq nA vA pair
      rw [(step_follows taken i).pair seq] at pair
      apply (voted_step_iff taken).mpr
      obtain ⟨_, kept⟩ | ⟨stamp, old, found⟩ | voted := SlotEffect.pair_eq_some pair
      · exact .inl (real.slots i seq nA vA kept)
      · rw [keep i seq nA stamp old vA found]
        exact .inl (real.slots i seq old vA found)
      · exact .inr voted
    refine ⟨slots, fun r i promise member nonempty => ?_⟩
    have event := Cluster.step_event taken
    rcases event.prepareReply_cases member with before | ⟨k, request, rfl, sent, replied, moved⟩
    · obtain ⟨request, asked, voted⟩ := real.replies r i promise before nonempty
      exact ⟨request, event.sent asked, voted.step event⟩
    · refine ⟨request, event.sent (List.mem_of_getElem? sent), ?_⟩
      apply slots
      rw [moved]
      exact prepare_reports replied nonempty

theorem pairsReal_initial : PairsReal (Cluster.initial n) := by
  constructor
  · intro i seq nA vA pair
    cases pair
  · intro r i promise member
    cases member

/-- In every run the accepted pairs stay real exactly when every step that calls `addSlots` for a slot
with an accepted value finds its server still in the view of that value. -/
theorem pairsReal_iff {labels : List (Label n)} {final : Cluster n}
    (ran : run Cluster.step (Cluster.initial n) labels = some final) :
    EveryStep Cluster.step (fun _ _ next => PairsReal next) (Cluster.initial n) labels ↔
      Guarded Cluster.step StampsKeep (Cluster.initial n) labels := by
  refine everyStep_iff_guarded_of_invariant (fun c => c.Reached ∧ PairsReal c) ?_ ?_ ?_ ran
  · intro c label next holds taken
    exact pairsReal_step holds.1 holds.2 taken
  · intro c label next holds keep taken
    exact ⟨holds.1.step taken, (pairsReal_step holds.1 holds.2 taken).mpr keep⟩
  · exact ⟨.refl _ _, pairsReal_initial⟩

/-- An Accept that passes the tests stamps no slot. -/
theorem stampsKeep_of_vote {c : Cluster n} {k r : Nat} {j : Fin n} {request : AcceptRequest}
    (sent : c.msgs[k]? = some (.acceptRequest r j request)) (allowed : (c.servers j).Allows request) :
    StampsKeep c (.deliver k) := by
  intro i seq view stamp
  simp only [Cluster.effect, sent] at stamp
  split at stamp
  next same =>
    subst same
    rw [PaxosImpl.acceptEffect, if_pos allowed, SlotEffect.only] at stamp
    split at stamp <;> cases stamp
  · cases stamp

/-- A server accepts a value in its own view. -/
def acceptedOnce (server : Fin 1) : List (Label 1) :=
  [.start server 1 "x#SHARED", .begin 0, .deliver 0]

/-- The next delivered message is an Accept that passes the tests. -/
def Cluster.votesNext (c : Cluster n) (k : Nat) : Bool :=
  match c.msgs[k]? with
  | some (.acceptRequest _ j request) => decide ((c.servers j).Allows request)
  | _ => false

theorem pairsReal_iff_acceptedOnce : ∃ c, run Cluster.step (Cluster.initial 1) (acceptedOnce 0) = some c ∧
    (c.servers 0).acceptedPair 1 = some (0, "x#SHARED") ∧
    EveryStep Cluster.step (fun _ _ next => PairsReal next) (Cluster.initial 1) (acceptedOnce 0) := by
  obtain ⟨c, ran, checked⟩ := (Option.any_eq_true _ _).mp (by decide :
    (run Cluster.step (Cluster.initial 1) (acceptedOnce 0)).any (fun c =>
      decide ((c.servers 0).acceptedPair 1 = some (0, "x#SHARED"))) = true)
  refine ⟨c, ran, of_decide_eq_true checked, (pairsReal_iff ran).mpr ?_⟩
  constructor
  · intro i seq view _ nA vA pair
    cases pair
  intro first started
  constructor
  · intro i seq view stamp
    cases stamp
  intro second begun
  refine ⟨?_, fun _ _ => trivial⟩
  have votes : second.votesNext 0 = true := by
    have every : (run Cluster.step (Cluster.initial 1) [.start 0 1 "x#SHARED", .begin 0]).all
        (fun c => c.votesNext 0) = true := by decide
    simpa [run, started, begun] using every
  unfold Cluster.votesNext at votes
  split at votes
  next r j request sent => exact stampsKeep_of_vote sent (of_decide_eq_true votes)
  · cases votes

/-- Server 0 accepts a value in view 0, votes in the election of server 1 and touches the slot again. -/
def stampedVote (first second : Fin 2) : List (Label 2) :=
  [.start first 1 "x#SHARED", .begin 0, .deliver 0, .detect second, .detect second, .detect second,
    .detect second, .deliver 3, .start first 1 "x#FREE"]

theorem stamped_pair_unreal : ¬ ∀ (n : Nat) (labels : List (Label n)) (final : Cluster n),
    run Cluster.step (Cluster.initial n) labels = some final → PairsReal final := by
  intro real
  obtain ⟨c, ran, checked⟩ := (Option.any_eq_true _ _).mp (by decide :
    (run Cluster.step (Cluster.initial 2) (stampedVote 0 1)).any (fun c =>
      decide ((c.servers 0).acceptedPair 1 = some (1, "x#SHARED") ∧
        ¬ Voted c 0 1 1 "x#SHARED")) = true)
  obtain ⟨pair, unvoted⟩ := of_decide_eq_true checked
  exact unvoted ((real 2 _ c ran).slots 0 1 1 "x#SHARED" pair)

end Chubby.Paxos
