/-
This file proves how many done entries the heartbeats carry, and so how long every done vector stays.
-/

import Chubby.Paxos.Threads

namespace Chubby.Paxos

open Chubby.Library

variable {n : Nat}

/-- The calls that a heartbeat thread has made: those that have ended and the one it waits for. -/
def Beat.calls (beat : Beat n) : Nat := beat.next + if beat.waiting then 1 else 0

/-- A new Heartbeat request is the next call of its thread, and it repeats the sender's done vector. -/
theorem Event.beatRequests {c c' : Cluster n} {label : Label n} (event : Event c label c') {b : Nat}
    {i : Fin n} {request : HeartbeatRequest} (sent : .heartbeatRequest b i request ∈ c'.msgs) :
    .heartbeatRequest b i request ∈ c.msgs ∨ ∃ beat, c.beats[b]? = some beat ∧ beat.calls = i.val ∧
      request.done = beat.done ++ (c.servers beat.server).done := by
  cases event with
  | @sendBeat b beat peer found waits next =>
      rcases List.mem_append.mp sent with before | new
      · exact .inl before
      · cases List.mem_singleton.mp new
        refine .inr ⟨beat, found, ?_, rfl⟩
        unfold Beat.calls
        rw [waits, next]
        rfl
  | prepareOutcome =>
      left
      rcases List.mem_append.mp sent with before | new
      · exact before
      · unfold Cluster.prepareRequests at new
        grind
  | electionEnds =>
      left
      unfold Cluster.endElection at sent
      dsimp only at sent
      split at sent <;> simpa [Cluster.electOutcome, Cluster.electRequests] using sent
  | prepareHandled | acceptHandled | heartbeatHandled =>
      rcases List.mem_append.mp sent with before | new
      · exact .inl before
      · obtain ⟨response, _, other⟩ := reply_of_mem new
        cases other
  | start | forwardHandled | forwardCalls | electHandled => left; simpa using sent
  | beginPrepare => left; simpa [Cluster.enterPrepare, Cluster.prepareRequests] using sent
  | skip | proposeAccept => left; simpa [Cluster.enterAccept, Cluster.acceptRequests] using sent
  | proposeLearn | concludeLearn => left; simpa [Cluster.enterLearn, Cluster.learnRequests] using sent
  | electOutcome => left; simpa [Cluster.electOutcome, Cluster.electRequests] using sent
  | detectCampaign => left; simpa [Cluster.electRequests] using sent
  | _ => exact .inl sent

/-- What a step does to the calls and the done entries of a heartbeat thread. -/
inductive BeatCalls (c : Cluster n) (b : Nat) (beat' : Beat n) : Prop where
  | new (calls : beat'.calls = 0) (done : beat'.done = [])
  | kept {beat : Beat n} (found : c.beats[b]? = some beat) (calls : beat'.calls = beat.calls)
      (done : beat'.done = beat.done)
  | sends {beat : Beat n} (found : c.beats[b]? = some beat) (calls : beat'.calls = beat.calls + 1)
      (done : beat'.done = beat.done ++ (c.servers beat.server).done)

/-- A call that ends leaves the number of calls as it is. -/
theorem Beat.calls_ends {beat : Beat n} (waits : beat.waiting = true) :
    ({ beat with waiting := false, next := beat.next + 1 } : Beat n).calls = beat.calls := by
  unfold Beat.calls
  rw [waits]
  rfl

/-- A thread that no step names keeps its calls; the other three cases end or start one. -/
theorem Cluster.step_beatCalls {c c' : Cluster n} {label : Label n} (taken : c.step label = some c')
    {b : Nat} {beat' : Beat n} (after : c'.beats[b]? = some beat') : BeatCalls c b beat' := by
  have kept (before : c.beats[b]? = some beat') : BeatCalls c b beat' := .kept before rfl rfl
  cases Cluster.step_event taken with
  | start | forwardHandled => exact kept (by simpa using after)
  | electionEnds =>
      apply kept
      rwa [endElection_beats] at after
  | beat added =>
      rcases added with rfl | ⟨slots, built, rfl⟩
      · exact kept after
      · rcases getElem?_concat_cases after with before | ⟨_, rfl⟩
        · exact kept before
        · exact .new rfl rfl
  | sendBeat found waits next =>
      rcases getElem?_set_cases after with before | ⟨rfl, rfl⟩
      · exact kept before
      · refine .sends found ?_ rfl
        unfold Beat.calls
        rw [waits]
        rfl
  | beatFails found =>
      rcases getElem?_set_cases after with before | ⟨rfl, rfl⟩
      · exact kept before
      · refine .kept found (Beat.calls_ends ?_) rfl
        simp only [Cluster.step, Cluster.beatFails, found] at taken
        split at taken
        · assumption
        · cases taken
  | beatReceived sent found =>
      rcases getElem?_set_cases after with before | ⟨rfl, rfl⟩
      · exact kept before
      · refine .kept found (Beat.calls_ends ?_) rfl
        simp only [Cluster.step, Cluster.receive, sent, found] at taken
        split at taken
        next current => exact current.1
        · cases taken
  | _ => exact kept after

/-- Every server has one done entry for each server, and the call to the i-th server repeats them i + 1
times. -/
structure Sized (c : Cluster n) : Prop where
  servers : ∀ i, (c.servers i).done.length = n
  beats : ∀ (b : Nat) (beat : Beat n), c.beats[b]? = some beat → beat.done.length = n * beat.calls
  requests : ∀ b i request, .heartbeatRequest b i request ∈ c.msgs →
    request.done.length = n * (i.val + 1)

theorem Sized.initial : Sized (Cluster.initial n) where
  servers := fun _ => List.length_replicate
  beats := fun _ _ found => by cases found
  requests := fun _ _ _ member => by cases member

/-- Only a Heartbeat request to the first server has one done entry for each server. -/
def Msg.entriesFit : Msg n → Prop
  | .heartbeatRequest _ i _ => i.val = 0
  | _ => True

instance : DecidablePred (Msg.entriesFit (n := n))
  | .heartbeatRequest _ i _ => inferInstanceAs (Decidable (i.val = 0))
  | .prepareRequest .. | .prepareReply .. | .acceptRequest .. | .acceptReply .. | .learnRequest ..
  | .electRequest .. | .electReply .. | .forwardRequest .. | .heartbeatReply .. => .isTrue trivial

/-- Every Heartbeat request that is delivered goes to the first server. -/
def ReachesFirst (c : Cluster n) : Label n → Prop
  | .deliver k => ∀ message ∈ c.msgs[k]?, message.entriesFit
  | _ => True

instance (c : Cluster n) : DecidablePred (ReachesFirst c)
  | .deliver k => inferInstanceAs (Decidable (∀ message ∈ c.msgs[k]?, message.entriesFit))
  | .start .. | .begin _ | .propose _ | .conclude _ | .finishLearn _ | .forward _ | .forwardReturns _
  | .receive _ | .prepareFails _ | .acceptFails .. | .electFails _ | .beatFails _ | .detect _ | .quietEnds _
  | .concludeElection _ | .beat _ | .sendBeat _ => .isTrue trivial

/-- The request has one done entry for each server, and they are those of the server that it names. -/
def Msg.carriesDone (c : Cluster n) : Msg n → Prop
  | .heartbeatRequest _ _ request => request.done.length = n ∧
      ∀ sender : Fin n, (sender.val : Int) = request.id → request.done = (c.servers sender).done
  | _ => True

/-- After the step every server has one done entry for each server, and so has the Heartbeat request that
the step delivers. -/
def KeepsDone (c : Cluster n) (label : Label n) (c' : Cluster n) : Prop :=
  (∀ i, (c'.servers i).done.length = n) ∧
    match label with
    | .deliver k => ∀ message ∈ c.msgs[k]?, message.carriesDone c
    | _ => True

/-- A server's done vector changes only when a Heartbeat request is delivered to it. -/
theorem Event.done {c c' : Cluster n} {label : Label n} (event : Event c label c') (j : Fin n) :
    (c'.servers j).done = (c.servers j).done ∨ ∃ k b request, label = .deliver k ∧
      c.msgs[k]? = some (.heartbeatRequest b j request) ∧ (c'.servers j).done = request.done := by
  cases event.written j with
  | nothing after => exact .inl (congrArg PaxosImpl.done after)
  | start after => exact .inl (by rw [after]; exact (PaxosImpl.start_quiet _ _ _).done)
  | startOnForward after => exact .inl (by rw [after]; exact (PaxosImpl.startOnForward_quiet _ _ _).done)
  | begins _ _ _ _ _ _ after => exact .inl (by rw [after]; rfl)
  | hears _ _ _ _ after => exact .inl (by rw [after]; rfl)
  | raiseView after => exact .inl (by rw [after]; exact (PaxosImpl.quiet_raiseView _ _).done)
  | @concludeElection e attempt campaign outcomes found self asks asked after =>
      left
      subst self
      rw [after]
      by_cases won : (concludeElection n (c.servers campaign.server) campaign.target
          (electTally outcomes)).2 = .won
      · exact (elects_of_won won).done
      · exact (concludeElection_quiet won).done
  | detectLeaderFailure after =>
      exact .inl (by rw [after]; exact (PaxosImpl.detectLeaderFailure_quiet _ _).done)
  | quietPeriodEnds after => exact .inl (by rw [after]; rfl)
  | prepare _ _ after => exact .inl (by rw [after]; exact (PaxosImpl.prepare_quiet _ _ _).done)
  | @accept k r request _ _ _ after =>
      left
      rw [after]
      rcases (c.servers j).accept_outcomes j request with same | ⟨_, _, _, _, quiet⟩ |
        ⟨_, _, _, accepted⟩
      · rw [same]
      · exact quiet.done
      · exact accepted.done
  | learn _ _ after => exact .inl (by rw [after]; exact PaxosImpl.learn_done _ _ _ _)
  | elect after => exact .inl (by rw [after]; exact (PaxosImpl.elect_quiet _ _).done)
  | @heartbeat k b request named sent after =>
      rw [after]
      exact (PaxosImpl.heartbeat_done (c.servers j) j request).imp_right fun copied =>
        ⟨k, b, request, named, sent, copied⟩
  | copyDecided _ _ after => exact .inl (by rw [after]; rfl)

/-- A step that delivers Heartbeat requests only to the first server keeps the sizes. -/
theorem Sized.step {c c' : Cluster n} {label : Label n} (sized : Sized c) (first : ReachesFirst c label)
    (taken : c.step label = some c') : Sized c' where
  servers := by
    intro j
    rcases (Cluster.step_event taken).done j with same | ⟨k, b, request, rfl, sent, same⟩
    · rw [same]
      exact sized.servers j
    · have zero : j.val = 0 := first _ (Option.mem_def.mpr sent)
      have size := sized.requests b j request (List.mem_of_getElem? sent)
      rw [zero] at size
      rw [same, size, Nat.mul_one]
  beats := by
    intro b beat after
    cases Cluster.step_beatCalls taken after with
    | new calls done => rw [calls, done]; rfl
    | kept found calls done => rw [calls, done]; exact sized.beats b _ found
    | sends found calls done =>
        rw [calls, done, List.length_append, sized.beats b _ found, sized.servers, Nat.mul_succ]
  requests := by
    intro b i request member
    rcases (Cluster.step_event taken).beatRequests member with before | ⟨beat, found, calls, done⟩
    · exact sized.requests b i request before
    · rw [done, List.length_append, sized.beats b beat found, sized.servers, calls, Nat.mul_succ]

/-- A delivered request carries one entry for each server exactly when it goes to the first server. -/
theorem carriesDone_iff {c : Cluster n} (reached : c.Reached) (sized : Sized c) {message : Msg n}
    (member : message ∈ c.msgs) : message.carriesDone c ↔ message.entriesFit := by
  cases message with
  | heartbeatRequest b i request =>
      have size := sized.requests b i request member
      have positive : 0 < n := i.pos
      constructor
      · rintro ⟨fits, _⟩
        have one : n * (i.val + 1) = n * 1 := by omega
        exact Nat.succ.inj (Nat.eq_of_mul_eq_mul_left positive one)
      · intro zero
        have fits : request.done.length = n := by
          rw [size, show i.val = 0 from zero, Nat.mul_one]
        refine ⟨fits, fun sender _ => ?_⟩
        obtain ⟨servers, requests, _⟩ := nothing_done reached
        have own : (c.servers sender).done = List.replicate n (-1) :=
          List.eq_replicate_iff.mpr ⟨sized.servers sender, servers sender⟩
        rw [own]
        exact List.eq_replicate_iff.mpr ⟨fits, requests b i request member⟩
  | _ => exact Iff.rfl

/-- One step keeps the done vectors exactly when it delivers no Heartbeat request past the first server. -/
theorem keepsDone_iff {c c' : Cluster n} {label : Label n} (reached : c.Reached) (sized : Sized c)
    (taken : c.step label = some c') : KeepsDone c label c' ↔ ReachesFirst c label := by
  constructor
  · rintro ⟨_, carries⟩
    cases label with
    | deliver k =>
        intro message found
        exact (carriesDone_iff reached sized (List.mem_of_getElem? found)).mp (carries message found)
    | _ => trivial
  · intro first
    refine ⟨(sized.step first taken).servers, ?_⟩
    cases label with
    | deliver k =>
        intro message found
        exact (carriesDone_iff reached sized (List.mem_of_getElem? found)).mpr (first message found)
    | _ => trivial

/-- Along every run of a cluster the done vectors keep one entry for each server, and so do the Heartbeat
requests that are delivered, exactly when these requests all go to the first server. -/
theorem keepsDone_iff_reachesFirst {labels : List (Label n)} {final : Cluster n}
    (ran : run Cluster.step (Cluster.initial n) labels = some final) :
    EveryStep Cluster.step KeepsDone (Cluster.initial n) labels ↔
      Guarded Cluster.step ReachesFirst (Cluster.initial n) labels := by
  refine everyStep_iff_guarded_of_invariant (fun c => c.Reached ∧ Sized c) ?_ ?_
    ⟨.refl _ _, Sized.initial⟩ ran
  · rintro c label c' ⟨reached, sized⟩ taken
    exact keepsDone_iff reached sized taken
  · rintro c label c' ⟨reached, sized⟩ first taken
    exact ⟨reached.step taken, sized.step first taken⟩

/-- The leader of view 0 calls itself, then its peer; the message names which request arrives. -/
def calledInTurn (leader : Fin n) (message : Nat) : List (Label n) :=
  [.beat leader, .sendBeat 0, .beatFails 0, .sendBeat 0, .deliver message]

theorem keepsDone_iff_reachesFirst_own : ∃ final : Cluster 2,
    run Cluster.step (Cluster.initial 2) (calledInTurn 0 0) = some final ∧
      EveryStep Cluster.step KeepsDone (Cluster.initial 2) (calledInTurn 0 0) := by
  obtain ⟨final, ran⟩ : ∃ final, run Cluster.step (Cluster.initial 2) (calledInTurn 0 0) = some final :=
    ⟨_, rfl⟩
  exact ⟨final, ran, (keepsDone_iff_reachesFirst ran).mpr (by decide)⟩

/-- The second request of the first leader leaves four entries on a server of two. -/
theorem doneVector_grows : ¬ ∀ (n : Nat) (labels : List (Label n)) (final : Cluster n),
    run Cluster.step (Cluster.initial n) labels = some final →
      ∀ i, (final.servers i).done.length = n := by
  intro keeps
  obtain ⟨final, ran, grown⟩ : ∃ final, run Cluster.step (Cluster.initial 2) (calledInTurn 0 1) =
      some final ∧ (final.servers 1).done.length = 4 := ⟨_, rfl, by decide⟩
  have two := keeps 2 (calledInTurn 0 1) final ran 1
  rw [grown] at two
  contradiction

end Chubby.Paxos
