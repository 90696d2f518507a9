/-
This file says what a step of the cluster does to the heartbeat passes and their messages.
-/

import Chubby.Library.Places
import Chubby.Paxos.Transitions

namespace Chubby.Paxos

open Chubby.Library

variable {n : Nat} {c c' : Cluster n} {label : Label n}

/-- A new Heartbeat request carries the slots and the view of its pass and names its sender. -/
theorem Event.beat_sent (event : Event c label c') {b : Nat} {i : Fin n} {request : HeartbeatRequest}
    (sent : .heartbeatRequest b i request ∈ c'.msgs) :
    .heartbeatRequest b i request ∈ c.msgs ∨ ∃ beat, c.beats[b]? = some beat ∧
      request.slots = beat.slots ∧ request.id = beat.server.val ∧ request.view = beat.view := by
  cases event with
  | @sendBeat b beat peer found waits next =>
      rcases List.mem_append.mp sent with before | new
      · exact .inl before
      · cases List.mem_singleton.mp new
        exact .inr ⟨beat, found, rfl, rfl, rfl⟩
  | prepareOutcome =>
      left
      rcases List.mem_append.mp sent with before | new
      · exact before
      · unfold Cluster.prepareRequests at new
        grind
  | electionEnds =>
      left
      unfold Cluster.endElection at sent
      dsimp only at sent
      split at sent <;> simpa [Cluster.electOutcome, Cluster.electRequests] using sent
  | prepareHandled | acceptHandled | heartbeatHandled =>
      rcases List.mem_append.mp sent with before | new
      · exact .inl before
      · obtain ⟨response, _, other⟩ := reply_of_mem new
        cases other
  | start | forwardHandled | forwardCalls | electHandled => left; simpa using sent
  | beginPrepare => left; simpa [Cluster.enterPrepare, Cluster.prepareRequests] using sent
  | skip | proposeAccept => left; simpa [Cluster.enterAccept, Cluster.acceptRequests] using sent
  | proposeLearn | concludeLearn => left; simpa [Cluster.enterLearn, Cluster.learnRequests] using sent
  | electOutcome => left; simpa [Cluster.electOutcome, Cluster.electRequests] using sent
  | detectCampaign => left; simpa [Cluster.electRequests] using sent
  | _ => exact .inl sent

/-- A new Heartbeat reply is that of a peer that handles a request of the pass in this step. -/
theorem Event.beat_answered (event : Event c label c') {b : Nat} {i : Fin n} {response : HeartbeatResponse}
    (sent : .heartbeatReply b i response ∈ c'.msgs) :
    .heartbeatReply b i response ∈ c.msgs ∨ ∃ request, .heartbeatRequest b i request ∈ c.msgs ∧
      ((c.servers i).heartbeat i request).2 = .ok response ∧
      c'.servers i = ((c.servers i).heartbeat i request).1 := by
  cases event.replies with
  | requests added asks =>
      rw [added] at sent
      rcases List.mem_append.mp sent with before | new
      · exact .inl before
      · cases asks _ new
  | prepare asked | accept asked =>
      rcases List.mem_append.mp sent with before | new
      · exact .inl before
      · obtain ⟨_, _, other⟩ := reply_of_mem new
        cases other
  | elect asked =>
      rcases List.mem_append.mp sent with before | new
      · exact .inl before
      · cases List.mem_singleton.mp new
  | @heartbeat k b' i' request asked =>
      rcases List.mem_append.mp sent with before | new
      · exact .inl before
      · obtain ⟨_, replied, same⟩ := reply_of_mem new
        cases same
        exact .inr ⟨request, List.mem_of_getElem? asked, replied, Function.update_self ..⟩

/-- A heartbeat pass keeps its server and its slots. -/
theorem Event.beat_kept (event : Event c label c') {b : Nat} {beat : Beat n}
    (found : c.beats[b]? = some beat) : ∃ beat' : Beat n, c'.beats[b]? = some beat' ∧
      beat'.server = beat.server ∧ beat'.slots = beat.slots := by
  have same (stays : c'.beats = c.beats) : ∃ beat' : Beat n, c'.beats[b]? = some beat' ∧
      beat'.server = beat.server ∧ beat'.slots = beat.slots :=
    ⟨beat, by rw [stays]; exact found, rfl, rfl⟩
  have changed {k : Nat} {old new : Beat n} (there : c.beats[k]? = some old) (server : new.server = old.server)
      (slots : new.slots = old.slots) : ∃ beat' : Beat n, (c.beats.set k new)[b]? = some beat' ∧
        beat'.server = beat.server ∧ beat'.slots = beat.slots := by
    by_cases here : b = k
    · subst here
      cases there.symm.trans found
      exact ⟨new, getElem?_set_self_of_some found, server, slots⟩
    · exact ⟨beat, (List.getElem?_set_ne (Ne.symm here)).trans found, rfl, rfl⟩
  cases event with
  | start => exact same (Cluster.spawn_beats _ _ _ _ _)
  | forwardHandled => exact same (Cluster.spawn_beats _ _ _ _ _)
  | electionEnds => exact same (endElection_beats _ _ _ _ _)
  | beat added =>
      rcases added with rfl | ⟨slots, _, rfl⟩
      · exact ⟨beat, found, rfl, rfl⟩
      · exact ⟨beat, place_append found _, rfl, rfl⟩
  | sendBeat there | beatFails there | beatReceived _ there => exact changed there rfl rfl
  | _ => exact same rfl

/-- A heartbeat thread keeps the view in which it began. -/
theorem Event.beat_view (event : Event c label c') {b : Nat} {beat' : Beat n}
    (after : c'.beats[b]? = some beat') :
    (∃ beat, c.beats[b]? = some beat ∧ beat'.view = beat.view ∧ beat'.server = beat.server) ∨
      beat'.view = (c.servers beat'.server).view := by
  have kept (before : c.beats[b]? = some beat') :
      (∃ beat, c.beats[b]? = some beat ∧ beat'.view = beat.view ∧ beat'.server = beat.server) ∨
        beat'.view = (c.servers beat'.server).view := .inl ⟨beat', before, rfl, rfl⟩
  cases event with
  | start => exact kept (by simpa using after)
  | forwardHandled sent => exact kept (by simpa using after)
  | electionEnds found asks asked => exact kept (by rwa [endElection_beats] at after)
  | beat added =>
      rcases added with rfl | ⟨slots, built, rfl⟩
      · exact kept after
      · rcases getElem?_concat_cases after with before | ⟨_, rfl⟩
        · exact kept before
        · exact .inr rfl
  | sendBeat found waits next =>
      rcases getElem?_set_cases after with before | ⟨rfl, rfl⟩
      · exact kept before
      · exact .inl ⟨_, found, rfl, rfl⟩
  | beatFails found =>
      rcases getElem?_set_cases after with before | ⟨rfl, rfl⟩
      · exact kept before
      · exact .inl ⟨_, found, rfl, rfl⟩
  | beatReceived sent found =>
      rcases getElem?_set_cases after with before | ⟨rfl, rfl⟩
      · exact kept before
      · exact .inl ⟨_, found, rfl, rfl⟩
  | _ => exact kept after

end Chubby.Paxos
