/-
This file gives the history of votes and proposals that the messages of a cluster record.
-/

import Chubby.Paxos.Transitions

namespace Chubby.Paxos

open Chubby.Library

variable {n : Nat}

/-- The server answered an Accept of this view and value for the slot with OK. -/
def Voted (c : Cluster n) (i : Fin n) (seq view : Int) (value : String) : Prop :=
  ∃ r response, .acceptReply r i ⟨seq, view, value⟩ response ∈ c.msgs ∧ response.status = .ok

/-- Some round sent an Accept of this view and value for the slot. -/
def Proposed (c : Cluster n) (seq view : Int) (value : String) : Prop :=
  ∃ r i, .acceptRequest r i ⟨seq, view, value⟩ ∈ c.msgs

/-- The message is an Accept of this request. -/
def Msg.proposes (request : AcceptRequest) : Msg n → Bool
  | .acceptRequest _ _ sent => sent = request
  | _ => false

/-- The message is the server's OK answer to this Accept. -/
def Msg.votesFor (i : Fin n) (request : AcceptRequest) : Msg n → Bool
  | .acceptReply _ j answered response => j = i && answered = request && response.status = .ok
  | _ => false

theorem voted_iff {c : Cluster n} {i : Fin n} {seq view : Int} {value : String} :
    Voted c i seq view value ↔ ∃ message ∈ c.msgs, message.votesFor i ⟨seq, view, value⟩ := by
  constructor
  · rintro ⟨r, response, member, ok⟩
    exact ⟨_, member, by simp [Msg.votesFor, ok]⟩
  · rintro ⟨message, member, votes⟩
    cases message with
    | acceptReply r j request response =>
        simp only [Msg.votesFor, Bool.and_eq_true, decide_eq_true_eq] at votes
        obtain ⟨⟨rfl, rfl⟩, ok⟩ := votes
        exact ⟨r, response, member, ok⟩
    | _ => cases votes

instance (c : Cluster n) (i : Fin n) (seq view : Int) (value : String) :
    Decidable (Voted c i seq view value) := decidable_of_iff _ voted_iff.symm

theorem proposed_iff {c : Cluster n} {seq view : Int} {value : String} :
    Proposed c seq view value ↔ ∃ message ∈ c.msgs, message.proposes ⟨seq, view, value⟩ := by
  constructor
  · rintro ⟨r, i, member⟩
    exact ⟨_, member, by simp [Msg.proposes]⟩
  · rintro ⟨message, member, proposes⟩
    cases message with
    | acceptRequest r i request =>
        simp only [Msg.proposes, decide_eq_true_eq] at proposes
        subst proposes
        exact ⟨r, i, member⟩
    | _ => cases proposes

instance (c : Cluster n) (seq view : Int) (value : String) : Decidable (Proposed c seq view value) :=
  decidable_of_iff _ proposed_iff.symm

def Cluster.Reached (c : Cluster n) : Prop := Reachable Cluster.step (Cluster.initial n) c

/-- A step either sends no vote, or one server votes and every other server is unchanged. -/
inductive VoteStep (c : Cluster n) (label : Label n) (c' : Cluster n) : Prop where
  | silent {new : List (Msg n)} (added : c'.msgs = c.msgs ++ new)
      (quiet : ∀ message ∈ new, message.isVote = false)
      (vA : ∀ i seq, ((c'.servers i).slotAt seq).vA = ((c.servers i).slotAt seq).vA)
  | votes {k r : Nat} {j : Fin n} {request : AcceptRequest} {response : AcceptResponse}
      (delivered : label = .deliver k) (sent : c.msgs[k]? = some (.acceptRequest r j request))
      (accepted : PaxosImpl.Accepts (c.servers j) (c'.servers j) request)
      (voted : response.status = .ok)
      (replied : c'.msgs = c.msgs ++ [.acceptReply r j request response])
      (others : ∀ i, i ≠ j → c'.servers i = c.servers i)

/-- A server that does not vote keeps its accepted values. -/
theorem ServerStep.vA_of_quiet {c c' : Cluster n} {i : Fin n} (step : ServerStep c c' i)
    {new : List (Msg n)} (added : c'.msgs = c.msgs ++ new)
    (quiet : ∀ message ∈ new, message.isVote = false) (seq : Int) :
    ((c'.servers i).slotAt seq).vA = ((c.servers i).slotAt seq).vA := by
  rcases step with ⟨settled, _⟩ | ⟨_, _, voted, replied⟩ | ⟨_, self, _, _, won, moved⟩
  · exact settled.vA seq
  · rw [replied] at added
    rw [← List.append_cancel_left added] at quiet
    have refused := quiet _ (List.mem_singleton.mpr rfl)
    simp [Msg.isVote, voted] at refused
  · subst self
    rw [moved]
    exact (elects_of_won won).vA seq

theorem Event.votes {c c' : Cluster n} {label : Label n} (event : Event c label c') :
    VoteStep c label c' := by
  have silent {new : List (Msg n)} (added : c'.msgs = c.msgs ++ new)
      (quiet : ∀ message ∈ new, message.isVote = false) : VoteStep c label c' :=
    .silent added quiet fun i seq => (event.servers i).vA_of_quiet added quiet seq
  cases event.replies with
  | requests added asks =>
      exact silent added fun message member => Msg.isVote_of_request (asks message member)
  | prepare sent =>
      apply silent rfl
      split <;> simp [Msg.isVote]
  | elect sent => exact silent rfl (by simp [Msg.isVote])
  | heartbeat sent =>
      apply silent rfl
      split <;> simp [Msg.isVote]
  | @accept k r i request sent =>
      rcases (c.servers i).accept_outcomes i request with same | ⟨response, replied, refused, _, _⟩ |
        ⟨response, replied, voted, accepted⟩
      · apply silent rfl
        rw [same]
        simp
      · apply silent rfl
        rw [replied]
        simp [Msg.isVote, refused]
      · refine .votes rfl sent ?_ voted ?_ fun j other => ?_
        · simpa [Cluster.handled] using accepted
        · simp [Cluster.handled, replied]
        · simp [Cluster.handled, Function.update_of_ne other]

theorem Event.sent {c c' : Cluster n} {label : Label n} (event : Event c label c') {message : Msg n}
    (member : message ∈ c.msgs) : message ∈ c'.msgs := by
  obtain ⟨new, added, _⟩ := event.msgs
  rw [added]
  exact List.mem_append_left new member

theorem Voted.step {c c' : Cluster n} {label : Label n} (event : Event c label c') {i : Fin n}
    {seq view : Int} {value : String} (voted : Voted c i seq view value) :
    Voted c' i seq view value := by
  obtain ⟨r, response, member, ok⟩ := voted
  exact ⟨r, response, event.sent member, ok⟩

theorem Proposed.step {c c' : Cluster n} {label : Label n} (event : Event c label c')
    {seq view : Int} {value : String} (proposed : Proposed c seq view value) :
    Proposed c' seq view value := by
  obtain ⟨r, i, member⟩ := proposed
  exact ⟨r, i, event.sent member⟩

theorem ServerStep.view_mono {c c' : Cluster n} {i : Fin n} (step : ServerStep c c' i) :
    (c.servers i).view ≤ (c'.servers i).view := by
  rcases step with ⟨settled, _⟩ | ⟨_, accepted, _, _⟩ | ⟨_, self, _, _, won, moved⟩
  · exact settled.view
  · rw [accepted.view]
    exact accepted.allowed
  · subst self
    have elects := elects_of_won won
    rw [moved, elects.view]
    exact le_of_lt elects.larger

theorem ServerStep.accepted_mono {c c' : Cluster n} {i : Fin n} (step : ServerStep c c' i) :
    (c.servers i).highestAcceptedSeq ≤ (c'.servers i).highestAcceptedSeq := by
  rcases step with ⟨settled, _⟩ | ⟨_, accepted, _, _⟩ | ⟨_, self, _, _, won, moved⟩
  · exact le_of_eq settled.highestAcceptedSeq.symm
  · rw [accepted.highestAcceptedSeq]
    exact le_max_left _ _
  · subst self
    rw [moved]
    exact (elects_of_won won).highestAcceptedSeq

theorem ServerStep.lowestSlot {c c' : Cluster n} {i : Fin n} (step : ServerStep c c' i) :
    (c'.servers i).lowestSlot = (c.servers i).lowestSlot := by
  rcases step with ⟨settled, _⟩ | ⟨_, accepted, _, _⟩ | ⟨_, self, _, _, won, moved⟩
  · exact settled.lowestSlot
  · exact accepted.lowestSlot
  · subst self
    rw [moved]
    exact (elects_of_won won).lowestSlot

/-- A new vote answers an Accept in a view that the server has not passed. -/
theorem Event.voted_cases {c c' : Cluster n} {label : Label n} (event : Event c label c') {i : Fin n}
    {seq view : Int} {value : String} (voted : Voted c' i seq view value) :
    Voted c i seq view value ∨ ((∃ k r, label = .deliver k ∧
      c.msgs[k]? = some (.acceptRequest r i ⟨seq, view, value⟩)) ∧
      PaxosImpl.Accepts (c.servers i) (c'.servers i) ⟨seq, view, value⟩) := by
  obtain ⟨r, response, member, ok⟩ := voted
  rcases event.votes with ⟨added, quiet, _⟩ | ⟨delivered, sent, accepted, _, replied, _⟩
  · rw [added] at member
    rcases List.mem_append.mp member with before | new
    · exact .inl ⟨r, response, before, ok⟩
    · have refused := quiet _ new
      simp [Msg.isVote, ok] at refused
  · rw [replied] at member
    rcases List.mem_append.mp member with before | new
    · exact .inl ⟨r, response, before, ok⟩
    · cases List.mem_singleton.mp new
      exact .inr ⟨⟨_, r, delivered, sent⟩, accepted⟩

/-- The server records each vote in its view and in its accepted sequence number. -/
theorem Voted.bounded {c : Cluster n} (reached : c.Reached) {i : Fin n} {seq view : Int}
    {value : String} (voted : Voted c i seq view value) :
    view ≤ (c.servers i).view ∧ seq ≤ (c.servers i).highestAcceptedSeq := by
  revert voted
  revert value view seq i
  refine @reachable_invariant _ _ _ _ c (fun c => ∀ {i : Fin n} {seq view : Int} {value : String},
    Voted c i seq view value →
      view ≤ (c.servers i).view ∧ seq ≤ (c.servers i).highestAcceptedSeq) ?_ ?_ reached
  · rintro i seq view value ⟨_, _, member, _⟩
    cases member
  · intro c label c' _ bounded taken i seq view value voted
    have event := Cluster.step_event taken
    rcases event.voted_cases voted with before | ⟨_, accepted⟩
    · obtain ⟨below, seen⟩ := bounded before
      have raised := (event.servers i).view_mono
      have more := (event.servers i).accepted_mono
      exact ⟨by omega, by omega⟩
    · rw [accepted.view, accepted.highestAcceptedSeq]
      exact ⟨le_rfl, le_max_right _ _⟩

/-- Every vote answers a proposal. -/
theorem Voted.proposed {c : Cluster n} (reached : c.Reached) {i : Fin n} {seq view : Int}
    {value : String} (voted : Voted c i seq view value) : Proposed c seq view value := by
  revert voted
  revert value view seq i
  refine @reachable_invariant _ _ _ _ c (fun c => ∀ {i : Fin n} {seq view : Int} {value : String},
    Voted c i seq view value → Proposed c seq view value) ?_ ?_ reached
  · rintro i seq view value ⟨_, _, member, _⟩
    cases member
  · intro c label c' _ proposed taken i seq view value voted
    have event := Cluster.step_event taken
    rcases event.voted_cases voted with before | ⟨⟨k, r, _, sent⟩, _⟩
    · exact (proposed before).step event
    · exact Proposed.step event ⟨r, i, List.mem_of_getElem? sent⟩

/-- The last vote for a slot is its greatest one and gives the accepted value. -/
def LastVoteIs (c : Cluster n) (i : Fin n) (seq : Int) : Option (Int × String) → Prop
  | none => ((c.servers i).slotAt seq).vA = "" ∧ ∀ view value, ¬ Voted c i seq view value
  | some (last, text) => ((c.servers i).slotAt seq).vA = text ∧ Voted c i seq last text ∧
      ∀ view value, Voted c i seq view value → view ≤ last

theorem LastVoteIs.keep {c c' : Cluster n} {i : Fin n} {seq : Int} {last : Option (Int × String)}
    (vA : ((c'.servers i).slotAt seq).vA = ((c.servers i).slotAt seq).vA)
    (votes : ∀ view value, Voted c' i seq view value ↔ Voted c i seq view value)
    (is : LastVoteIs c i seq last) : LastVoteIs c' i seq last := by
  cases last with
  | none => exact ⟨vA.trans is.1, fun view value voted => is.2 view value ((votes view value).mp voted)⟩
  | some vote =>
      obtain ⟨text, voted, greatest⟩ := is
      exact ⟨vA.trans text, (votes _ _).mpr voted, fun view value earlier =>
        greatest view value ((votes view value).mp earlier)⟩

theorem lastVoteIs_lastVote {c : Cluster n} (reached : c.Reached) (i : Fin n) (seq : Int) :
    LastVoteIs c i seq (lastVote c.msgs i seq) := by
  revert i seq
  refine @reachable_invariant _ _ _ _ c
    (fun c => ∀ i seq, LastVoteIs c i seq (lastVote c.msgs i seq)) ?_ ?_ reached
  · intro i seq
    refine ⟨rfl, ?_⟩
    rintro view value ⟨_, _, member, _⟩
    cases member
  · intro c label c' before is taken i seq
    have event := Cluster.step_event taken
    have kept (vA : ((c'.servers i).slotAt seq).vA = ((c.servers i).slotAt seq).vA)
        (last : lastVote c'.msgs i seq = lastVote c.msgs i seq)
        (old : ∀ view value, Voted c' i seq view value → Voted c i seq view value) :
        LastVoteIs c' i seq (lastVote c'.msgs i seq) := by
      rw [last]
      exact (is i seq).keep vA fun view value => ⟨old view value, Voted.step event⟩
    rcases event.votes with ⟨added, quiet, vA⟩ | ⟨_, sent, accepted, ok, replied, others⟩
    · refine kept (vA i seq) ?_ ?_
      · rw [added, lastVote_append_of_not_vote _ _ _ _ quiet]
      · rintro view value ⟨r, response, member, voted⟩
        rw [added] at member
        refine ⟨r, response, (List.mem_append.mp member).resolve_right fun new => ?_, voted⟩
        have refused := quiet _ new
        simp [Msg.isVote, voted] at refused
    next r j request response _ =>
      have appended := lastVote_append_vote c.msgs r j i request response ok seq
      rw [← replied] at appended
      by_cases same : j = i ∧ request.seq = seq
      · -- the new vote is in the server's view, which bounds every earlier vote
        obtain ⟨rfl, rfl⟩ := same
        rw [appended, if_pos ⟨rfl, rfl⟩]
        refine ⟨(accepted.vA request.seq).trans (if_pos rfl), ?_, ?_⟩
        · exact ⟨r, response, by rw [replied]; exact List.mem_append_right _ (List.mem_singleton.mpr rfl), ok⟩
        · intro view value voted
          rcases event.voted_cases voted with earlier | ⟨_, again⟩
          · exact (Voted.bounded before earlier).1.trans accepted.allowed
          · exact le_of_eq (again.view.symm.trans accepted.view)
      · refine kept ?_ (appended.trans (if_neg same)) ?_
        · by_cases self : i = j
          · subst self
            exact (accepted.vA seq).trans (if_neg fun equal => same ⟨rfl, equal.symm⟩)
          · rw [others i self]
        · rintro view value ⟨s, answer, member, voted⟩
          rw [replied] at member
          refine ⟨s, answer, (List.mem_append.mp member).resolve_right fun new => ?_, voted⟩
          cases List.mem_singleton.mp new
          exact same ⟨rfl, rfl⟩

end Chubby.Paxos
