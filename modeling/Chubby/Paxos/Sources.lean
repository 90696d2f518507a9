/-
This file follows every decided value, and every value that a message offers as decided, to its source.
-/

import Chubby.Paxos.Threads

namespace Chubby.Paxos

open Chubby.Library

variable {n : Nat}

/-- Every decided value, and every value offered or reported as decided, is a known one. -/
structure Sourced (known : Int → String → Prop) (c : Cluster n) : Prop where
  servers : ∀ i seq value, (c.servers i).decidedValue seq = some value → known seq value
  learnRequests : ∀ r i request, .learnRequest r i request ∈ c.msgs → known request.seq request.value
  heartbeatRequests : ∀ b i request, .heartbeatRequest b i request ∈ c.msgs →
    ∀ seq slot, request.slots seq = some slot → known seq slot.value
  heartbeatReplies : ∀ b i response, .heartbeatReply b i response ∈ c.msgs →
    ∀ seq slot, response.slots seq = some slot → known seq slot.value
  beats : ∀ (b : Nat) (beat : Beat n), c.beats[b]? = some beat →
    ∀ seq slot, beat.slots seq = some slot → known seq slot.value
  prepareReplies : ∀ r i promise, .prepareReply r i promise ∈ c.msgs →
    ∀ round : Round n, c.rounds[r]? = some round → promise.response.value ≠ "" →
      known round.seq promise.response.value

variable {known wider : Int → String → Prop}

theorem sourced_initial : Sourced known (Cluster.initial n) where
  servers i seq value decided := by cases decided
  learnRequests r i request member := by cases member
  heartbeatRequests b i request member := by cases member
  heartbeatReplies b i response member := by cases member
  beats b beat found := by cases found
  prepareReplies r i promise member := by cases member

theorem Sourced.mono {c : Cluster n} (sourced : Sourced known c)
    (inside : ∀ seq value, known seq value → wider seq value) : Sourced wider c where
  servers i seq value decided := inside _ _ (sourced.servers i seq value decided)
  learnRequests r i request member := inside _ _ (sourced.learnRequests r i request member)
  heartbeatRequests b i request member seq slot found :=
    inside _ _ (sourced.heartbeatRequests b i request member seq slot found)
  heartbeatReplies b i response member seq slot found :=
    inside _ _ (sourced.heartbeatReplies b i response member seq slot found)
  beats b beat beating seq slot found := inside _ _ (sourced.beats b beat beating seq slot found)
  prepareReplies r i promise member round found text :=
    inside _ _ (sourced.prepareReplies r i promise member round found text)

theorem Sourced.offered {c : Cluster n} (sourced : Sourced known c) {seq : Int} {value : String}
    (offered : Offered c seq value) : known seq value := by
  rcases offered with ⟨r, i, sent⟩ | ⟨b, i, request, slot, sent, found, rfl⟩ |
    ⟨b, i, response, slot, sent, found, rfl⟩
  · exact sourced.learnRequests r i _ sent
  · exact sourced.heartbeatRequests b i request sent seq slot found
  · exact sourced.heartbeatReplies b i response sent seq slot found

theorem Event.sourced_decided {c c' : Cluster n} {label : Label n} (event : Event c label c')
    (sourced : Sourced known c) {i : Fin n} {seq : Int} {value : String}
    (decided : (c'.servers i).decidedValue seq = some value) : known seq value := by
  rcases event.servers i with ⟨settled, _⟩ | ⟨_, accepted, _, _⟩ |
    @⟨e, attempt, campaign, outcomes, _, self, _, _, won, moved⟩
  · rcases settled.offered seq value decided with before | offered
    · exact sourced.servers i seq value before
    · exact sourced.offered offered
  · rw [accepted.decidedValue] at decided
    exact sourced.servers i seq value decided
  · subst self
    apply sourced.servers campaign.server seq value
    rw [← decided, moved, (elects_of_won won).decidedValue]

theorem Event.fresh_of_mem {c c' : Cluster n} {label : Label n} (event : Event c label c')
    {message : Msg n} (member : message ∈ c'.msgs) : message ∈ c.msgs ∨ Fresh c label c' message := by
  obtain ⟨new, added, fresh⟩ := event.msgs
  rw [added] at member
  exact (List.mem_append.mp member).imp_right (fresh message)

/-- Only a round that enters its learn phase can bring a value that is not known yet. -/
theorem Sourced.step {c c' : Cluster n} {label : Label n} (reached : c.Reached)
    (sourced : Sourced known c) (event : Event c label c')
    (learned : ∀ (r : Nat) (round : Round n) (value : String), c.rounds[r]? = some round →
      Learns r round label value → known round.seq value) : Sourced known c' := by
  refine ⟨?_, ?_, ?_, ?_, ?_, ?_⟩
  · intro i seq value decided
    exact event.sourced_decided sourced decided
  · intro r i request member
    rcases event.fresh_of_mem member with before | ⟨round, value, found, rfl, learns⟩
    · exact sourced.learnRequests r i request before
    · exact learned r round value found learns
  · intro b i request member seq slot found
    rcases event.fresh_of_mem member with before | ⟨beat, beating, slots, _⟩
    · exact sourced.heartbeatRequests b i request before seq slot found
    · rw [slots] at found
      exact sourced.beats b beat beating seq slot found
  · intro b i response member seq slot found
    rcases event.fresh_of_mem member with before | ⟨request, replied⟩
    · exact sourced.heartbeatReplies b i response before seq slot found
    · exact sourced.servers i seq _ (PaxosImpl.heartbeat_reply replied found)
  · intro b beat after seq slot found
    rcases event.beats after with ⟨built, _⟩ | ⟨beating, slots, _⟩
    · exact sourced.servers _ seq _ (PaxosImpl.heartbeatSlots_value built found)
    · rw [slots] at found
      exact sourced.beats b _ beating seq slot found
  · intro r i promise member round after text
    rcases event.fresh_of_mem member with before | ⟨request, asked, replied, _⟩
    · obtain ⟨old, found, _, _⟩ := prepareReply_round reached before
      obtain ⟨phase, moved, _⟩ := event.rounds_kept found
      rw [moved] at after
      cases after
      exact sourced.prepareReplies r i promise before old found text
    · obtain ⟨old, found, seq, _⟩ := prepareRequest_round reached asked
      obtain ⟨phase, moved, _⟩ := event.rounds_kept found
      rw [moved] at after
      cases after
      obtain ⟨_, _, _, decided⟩ := PaxosImpl.prepare_reply replied
      rw [seq] at decided
      exact sourced.servers i _ _ (decided text)

/-- A text that an OK promise of the round reports is a known value of the slot. -/
theorem Sourced.promised {c : Cluster n} (reached : c.Reached) (sourced : Sourced known c) {r : Nat}
    {round : Round n} {number highestN : Int} {outcomes : List (Option Promise)}
    (found : c.rounds[r]? = some round) (prepares : round.phase = .preparing number highestN outcomes)
    {response : PrepareResponse}
    (member : some response ∈ outcomes.map (Option.map Promise.response)) (text : response.value ≠ "") :
    known round.seq response.value := by
  obtain ⟨outcome, heard, is⟩ := List.mem_map.mp member
  rcases outcome with _ | promise
  · cases is
  · cases is
    obtain ⟨k, place⟩ := List.getElem?_of_mem heard
    obtain ⟨i, _, replied⟩ := (preparing_outcome reached found prepares).2 k promise place
    exact sourced.prepareReplies r i promise replied round found text

end Chubby.Paxos
