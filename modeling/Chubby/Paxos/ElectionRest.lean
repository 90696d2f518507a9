/-
This file proves that the servers which can be reached share one view when all elections have ended.
-/

import Chubby.Library.Places
import Chubby.Paxos.Beats
import Chubby.Paxos.ElectionSafety
import Chubby.Paxos.Fencing
import Chubby.Paxos.Returning
import Chubby.Paxos.ViewChange
import Mathlib.Data.List.MinMax

namespace Chubby.Paxos

open Chubby.Library

variable {n : Nat}

section Functions

variable {bound : Int} {server : PaxosImpl} {me : Fin n}

theorem ElectTally.count_ok {response : ElectResponse} (status : response.status = .ok) (tally : ElectTally) :
    (tally.count (some response)).highestView = tally.highestView ∧
      (tally.count (some response)).rejectCount = tally.rejectCount := by
  unfold ElectTally.count
  dsimp only
  rw [status]
  exact ⟨rfl, rfl⟩

theorem ElectTally.count_reject {response : ElectResponse} (status : response.status = .reject)
    (tally : ElectTally) :
    (tally.count (some response)).highestView = max tally.highestView response.view := by
  unfold ElectTally.count
  dsimp only
  rw [status]

/-- The fold keeps the largest view of the rejects, and counts a reject only for a reply. -/
theorem electTally_rejects (outcomes : List (Option ElectResponse)) :
    ((electTally outcomes).highestView = -1 ∨
      ∃ response, some response ∈ outcomes ∧ (electTally outcomes).highestView = response.view) ∧
    (0 < (electTally outcomes).rejectCount → ∃ response, some response ∈ outcomes ∧
      response.status = .reject ∧ response.view ≤ (electTally outcomes).highestView) := by
  induction outcomes using List.reverseRecOn with
  | nil => exact ⟨.inl rfl, fun counted => absurd counted (Nat.lt_irrefl 0)⟩
  | append_singleton outcomes outcome ih =>
      have concat : electTally (outcomes ++ [outcome]) = (electTally outcomes).count outcome := by
        simp [electTally]
      rw [concat]
      generalize electTally outcomes = tally at ih
      obtain ⟨source, counts⟩ := ih
      have later {response : ElectResponse} (member : some response ∈ outcomes) :
          some response ∈ outcomes ++ [outcome] := List.mem_append_left _ member
      have kept : tally.highestView = -1 ∨
          ∃ response, some response ∈ outcomes ++ [outcome] ∧ tally.highestView = response.view :=
        source.imp_right fun ⟨response, member, same⟩ => ⟨response, later member, same⟩
      have counted (rejected : 0 < tally.rejectCount) : ∃ response, some response ∈ outcomes ++ [outcome] ∧
          response.status = .reject ∧ response.view ≤ tally.highestView := by
        obtain ⟨response, member, facts⟩ := counts rejected
        exact ⟨response, later member, facts⟩
      cases outcome with
      | none => exact ⟨kept, counted⟩
      | some response =>
          have own : some response ∈ outcomes ++ [some response] :=
            List.mem_append_right _ (List.mem_singleton_self _)
          cases status : response.status with
          | ok =>
              obtain ⟨view, rejects⟩ := tally.count_ok status
              rw [view, rejects]
              exact ⟨kept, counted⟩
          | reject =>
              rw [tally.count_reject status]
              refine ⟨?_, fun _ => ⟨response, own, status, le_max_right _ _⟩⟩
              obtain first | second := max_choice tally.highestView response.view
              · rw [first]
                exact kept
              · exact .inr ⟨response, own, second⟩

theorem concludeElection_view_le {groupSize : Nat} {target : Int} {tally : ElectTally}
    (view : server.view ≤ bound) (targets : target ≤ bound) (highest : tally.highestView ≤ bound) :
    (concludeElection groupSize server target tally).1.view ≤ bound := by
  unfold concludeElection
  (repeat' split) <;> assumption

/-- A campaign that ends has brought its server to the target, when every reject has named a larger view. -/
theorem concludeElection_reaches {groupSize : Nat} {target : Int} {outcomes : List (Option ElectResponse)}
    (rejects : ∀ response, some response ∈ outcomes → response.status = .reject → target < response.view)
    (ends : (concludeElection groupSize server target (electTally outcomes)).2 ≠ .retry) :
    target ≤ (concludeElection groupSize server target (electTally outcomes)).1.view := by
  have adopted {view : Int} : (server.adoptView view).view = view := rfl
  unfold concludeElection at ends ⊢
  split
  next rejected =>
    obtain ⟨response, member, status, below⟩ := (electTally_rejects outcomes).2 rejected
    have larger := rejects response member status
    dsimp only
    split
    · rw [adopted]
      omega
    · omega
  next unrejected =>
    rw [if_neg unrejected] at ends
    split
    · split
      · exact le_refl target
      · dsimp only
        split
        · rw [adopted]
          omega
        · omega
    next short =>
      rw [if_neg short] at ends
      exact absurd rfl ends

theorem accept_view_le {request : AcceptRequest} (view : server.view ≤ bound) (asked : request.view ≤ bound) :
    (server.accept me request).1.view ≤ bound := by
  have raised : ((server.addSlots request.seq).raiseView request.view).view ≤ bound := by
    rw [PaxosImpl.raiseView_view]
    exact max_le view asked
  cases server.accept_cases me request with
  | collected _ same => rw [same]; exact view
  | accepts _ _ same =>
      rw [same, PaxosImpl.raiseAccepted_view]
      exact raised
  | rejects _ _ same => rw [same]; exact raised

theorem heartbeat_view_le {request : HeartbeatRequest} (view : server.view ≤ bound)
    (asked : request.view ≤ bound) : (server.heartbeat me request).1.view ≤ bound := by
  cases server.heartbeat_cases me request with
  | own _ same => rw [same]; exact view
  | refused _ same => rw [same]; exact view
  | processed _ _ same =>
      rw [same]
      apply le_of_eq_of_le (PaxosImpl.syncedWith_view server request)
      exact max_le view asked

theorem elect_view_le {request : ElectRequest} (view : server.view ≤ bound) (asked : request.view ≤ bound) :
    (server.elect request).1.view ≤ bound := by
  unfold PaxosImpl.elect PaxosImpl.electKeeping
  (repeat' split) <;> assumption

/-- A server that has answered has reached the asked view, and has passed it when it rejects. -/
theorem elect_reaches (server : PaxosImpl) (request : ElectRequest) :
    request.view ≤ (server.elect request).1.view ∧
      ((server.elect request).2.status = .reject → request.view < (server.elect request).2.view) := by
  unfold PaxosImpl.elect PaxosImpl.electKeeping
  split
  · exact ⟨le_refl request.view, fun rejects => by cases rejects⟩
  next behind =>
    split
    next same => exact ⟨le_of_eq same, fun rejects => by cases rejects⟩
    next differs =>
      have larger : request.view < server.view := lt_of_le_of_ne (not_lt.mp behind) differs
      exact ⟨le_of_lt larger, fun _ => larger⟩

/-- The loop never adopts a number that no reply carries. -/
theorem prepareLocals_highestNa_le {groupSize : Nat} {v : String} {highestN : Int}
    {outcomes : List (Option Promise)} (positive : -1 ≤ bound)
    (below : ∀ promise, some promise ∈ outcomes → promise.response.nA ≤ bound) :
    (prepareLocals groupSize v highestN outcomes).highestNa ≤ bound := by
  unfold prepareLocals
  rw [(prepareLoop_tracks groupSize v highestN (faithful_id _)).highestNa]
  cases kept : keptReply id (outcomes.map (Option.map Promise.response)) with
  | none => exact positive
  | some reply =>
      obtain ⟨outcome, member, same⟩ := List.mem_map.mp (keptReply_mem id kept)
      obtain ⟨promise, rfl, rfl⟩ := Option.map_eq_some_iff.mp same
      exact below promise member

end Functions

section InFlight

variable {c c' : Cluster n} {label : Label n}

/-- A reply to Elect carries the view to which the server has come, and tells whether it has passed the
target. -/
theorem electReply_reaches (reached : c.Reached) {e attempt : Nat} {i : Fin n} {request : ElectRequest}
    {response : ElectResponse} (member : .electReply e attempt i request response ∈ c.msgs) :
    .electRequest e attempt i request ∈ c.msgs ∧ request.view ≤ (c.servers i).view ∧
      response.view ≤ (c.servers i).view ∧
      (response.status = .reject → request.view < response.view) := by
  revert member
  revert response request i attempt e
  refine @reachable_invariant _ _ _ _ c (fun c => ∀ {e attempt : Nat} {i : Fin n} {request : ElectRequest}
    {response : ElectResponse}, .electReply e attempt i request response ∈ c.msgs →
    .electRequest e attempt i request ∈ c.msgs ∧ request.view ≤ (c.servers i).view ∧
      response.view ≤ (c.servers i).view ∧
      (response.status = .reject → request.view < response.view)) ?_ ?_ reached
  · intro e attempt i request response member
    cases member
  · intro c label c' _ known taken e attempt i request response member
    have event := Cluster.step_event taken
    obtain ⟨new, added, fresh⟩ := event.msgs
    rw [added] at member
    rcases List.mem_append.mp member with earlier | sending
    · obtain ⟨asked, reaches, below, rejects⟩ := known earlier
      have grows := (event.servers i).view_mono
      exact ⟨event.sent asked, reaches.trans grows, below.trans grows, rejects⟩
    · obtain ⟨asked, same, moved⟩ := fresh _ sending
      obtain ⟨reaches, rejects⟩ := elect_reaches (c.servers i) request
      rw [same, moved]
      exact ⟨event.sent asked, reaches, le_of_eq (PaxosImpl.elect_view _ _), rejects⟩

/-- A reply to Prepare carries the view of its server, with which the handler has stamped the slot. -/
theorem prepareReply_view (reached : c.Reached) {r : Nat} {i : Fin n} {promise : Promise}
    (member : .prepareReply r i promise ∈ c.msgs) : promise.response.nA ≤ (c.servers i).view := by
  revert member
  revert promise i r
  refine @reachable_invariant _ _ _ _ c (fun c => ∀ {r : Nat} {i : Fin n} {promise : Promise},
    .prepareReply r i promise ∈ c.msgs → promise.response.nA ≤ (c.servers i).view) ?_ ?_ reached
  · intro r i promise member
    cases member
  · intro c label c' _ known taken r i promise member
    have event := Cluster.step_event taken
    have grows := (event.servers i).view_mono
    obtain ⟨new, added, fresh⟩ := event.msgs
    rw [added] at member
    rcases List.mem_append.mp member with earlier | sending
    · exact (known earlier).trans grows
    · obtain ⟨request, _, replied, _⟩ := fresh _ sending
      have stamped : promise.response.nA = (c.servers i).view := by
        cases (c.servers i).prepare_cases i request with
        | collected _ same => rw [same] at replied; cases replied
        | promises _ _ same =>
            rw [same] at replied
            rw [← Except.ok.inj replied]
        | rejects _ _ same =>
            rw [same] at replied
            rw [← Except.ok.inj replied]
      rw [stamped]
      exact grows

/-- No heartbeat is ahead of the server that sends it. -/
theorem heartbeat_behind (reached : c.Reached) :
    (∀ (b : Nat) (beat : Beat n), c.beats[b]? = some beat → beat.view ≤ (c.servers beat.server).view) ∧
      ∀ b i request, .heartbeatRequest b i request ∈ c.msgs → ∃ k, request.view ≤ (c.servers k).view := by
  refine @reachable_invariant _ _ _ _ c (fun c =>
    (∀ (b : Nat) (beat : Beat n), c.beats[b]? = some beat → beat.view ≤ (c.servers beat.server).view) ∧
      ∀ b i request, .heartbeatRequest b i request ∈ c.msgs → ∃ k, request.view ≤ (c.servers k).view)
    ?_ ?_ reached
  · refine ⟨fun b beat found => ?_, fun b i request member => ?_⟩
    · cases found
    · cases member
  · rintro c label c' _ ⟨beats, requests⟩ taken
    have event := Cluster.step_event taken
    have grows (k : Fin n) := (event.servers k).view_mono
    constructor
    · intro b beat' after
      obtain ⟨beat, found, view, server⟩ | began := event.beat_view after
      · rw [view, server]
        exact (beats b beat found).trans (grows beat.server)
      · rw [began]
        exact grows beat'.server
    · intro b i request member
      obtain before | ⟨beat, found, _, _, view⟩ := event.beat_sent member
      · obtain ⟨k, below⟩ := requests b i request before
        exact ⟨k, below.trans (grows k)⟩
      · rw [view]
        exact ⟨beat.server, (beats b beat found).trans (grows beat.server)⟩

end InFlight

section Bounds

variable {c c' : Cluster n} {label : Label n} {bound : Int}

theorem afterPrepare_forward {v : String} {myView highestNa : Int} {locals : PrepareLocals}
    (chosen : afterPrepare v myView locals = .forward highestNa) : highestNa = locals.highestNa := by
  unfold afterPrepare at chosen
  split at chosen
  · cases chosen
    rfl
  · split at chosen <;> cases chosen

theorem written_view_le {servers : Fin n → PaxosImpl} {i : Fin n} {server : PaxosImpl}
    (views : ∀ j, (servers j).view ≤ bound) (within : server.view ≤ bound) (j : Fin n) :
    (Function.update servers i server j).view ≤ bound := by
  by_cases own : j = i
  · rw [own, Function.update_self]
    exact within
  · rw [Function.update_of_ne own]
    exact views j

/-- The round that leaves its prepare loop adopts a number that some server had as its view. -/
theorem propose_view_le (reached : c.Reached) (positive : -1 ≤ bound)
    (views : ∀ i, (c.servers i).view ≤ bound) {r : Nat} (taken : c.propose r = some c') (j : Fin n) :
    (c'.servers j).view ≤ bound := by
  unfold Cluster.propose at taken
  split at taken
  · cases taken
  next round found =>
    split at taken
    next number highestN outcomes prepares =>
      split at taken
      next done =>
        split at taken
        next highestNa chosen =>
          split at taken <;> cases taken
          refine written_view_le views ?_ j
          rw [PaxosImpl.raiseView_view]
          refine max_le (views round.server) ?_
          rw [afterPrepare_forward chosen]
          refine prepareLocals_highestNa_le positive fun promise member => ?_
          obtain ⟨k, heard⟩ := List.getElem?_of_mem member
          obtain ⟨i, _, replied⟩ := (preparing_outcome reached found prepares).2 k promise heard
          exact (prepareReply_view reached replied).trans (views i)
        next => cases taken; exact views j
        next => split at taken <;> cases taken; exact views j
      · cases taken
    · cases taken

/-- No step leads past the views of the servers and the targets of the campaigns. -/
theorem step_view_le (reached : c.Reached) (taken : c.step label = some c') (positive : -1 ≤ bound)
    (targets : ∀ campaign ∈ c.campaigns, campaign.target ≤ bound)
    (views : ∀ i, (c.servers i).view ≤ bound) (j : Fin n) : (c'.servers j).view ≤ bound := by
  by_cases named : ∃ r, label = .propose r
  · obtain ⟨r, rfl⟩ := named
    exact propose_view_le reached positive views taken j
  have written {i : Fin n} {server : PaxosImpl} (update : c'.servers = Function.update c.servers i server)
      (within : server.view ≤ bound) : (c'.servers j).view ≤ bound := by
    rw [update]
    exact written_view_le views within j
  have started (i : Fin n) (seq : Int) : ((c.servers i).start i seq).1.view ≤ bound := by
    obtain ⟨_, same⟩ | ⟨_, same⟩ := (c.servers i).start_server i seq <;> rw [same] <;> exact views i
  have forwarded (i : Fin n) (seq : Int) : ((c.servers i).startOnForward i seq).1.view ≤ bound := by
    rw [PaxosImpl.startOnForward_server]
    exact views i
  have detected (i : Fin n) : ((c.servers i).detectLeaderFailure i).1.view ≤ bound := by
    rw [((c.servers i).detectLeaderFailure_cases i).1]
    exact views i
  cases Cluster.step_event taken with
  | start => exact written (Cluster.spawn_servers _ _ _ _ _) (started _ _)
  | forwardHandled sent => exact written (Cluster.spawn_servers _ _ _ _ _) (started _ _)
  | beginPrepare found waits free seen => exact written rfl (views _)
  | prepareOutcome found prepares continues received => exact written rfl (views _)
  | proposeForward found prepares asked => exact absurd ⟨_, rfl⟩ named
  | forwardProposes found action moved => exact written rfl (forwarded _ _)
  | forwardCalls found moved => exact written rfl (forwarded _ _)
  | @electionEnds e attempt campaign outcomes found asks asked =>
      refine written (endElection_servers _ _ _ _ _) (concludeElection_view_le (views _)
        (targets campaign (List.mem_of_getElem? found)) ?_)
      obtain none_ | ⟨response, member, same⟩ := (electTally_rejects outcomes).1
      · rw [none_]
        exact positive
      · obtain ⟨k, heard⟩ := List.getElem?_of_mem member
        obtain ⟨i, request, _, replied⟩ := asking_outcome reached found asks heard
        rw [same]
        exact (electReply_reaches reached replied).2.2.1.trans (views i)
  | detect => exact written rfl (detected _)
  | detectCampaign election => exact written rfl (detected _)
  | quietEnds => exact written rfl (views _)
  | prepareHandled sent =>
      exact written rfl (le_of_eq_of_le (PaxosImpl.prepare_view _) (views _))
  | acceptHandled sent =>
      obtain ⟨round, found, _, view, _⟩ := acceptRequest_round reached (List.mem_of_getElem? sent)
      refine written rfl (accept_view_le (views _) ?_)
      rw [view]
      exact (round_view reached found).2.2.trans (views _)
  | learnHandled sent => exact written rfl (le_of_eq_of_le (PaxosImpl.learn_view _) (views _))
  | electHandled sent =>
      obtain ⟨campaign, found, target⟩ := electRequest_target reached (List.mem_of_getElem? sent)
      refine written rfl (elect_view_le (views _) ?_)
      rw [target]
      exact targets campaign (List.mem_of_getElem? found)
  | heartbeatHandled sent =>
      obtain ⟨k, below⟩ := (heartbeat_behind reached).2 _ _ _ (List.mem_of_getElem? sent)
      exact written rfl (heartbeat_view_le (views _) (below.trans (views k)))
  | beatReceived sent found =>
      refine written rfl ?_
      split
      · exact views _
      · exact views _
  | _ => exact views j

/-- No view is larger than every target of a campaign. -/
theorem views_bounded (reached : c.Reached) (positive : 0 ≤ bound)
    (targets : ∀ campaign ∈ c.campaigns, campaign.target ≤ bound) (i : Fin n) :
    (c.servers i).view ≤ bound := by
  revert i
  revert targets
  refine @reachable_invariant _ _ _ _ c (fun c => (∀ campaign ∈ c.campaigns, campaign.target ≤ bound) →
    ∀ i, (c.servers i).view ≤ bound) ?_ ?_ reached
  · intro _ i
    exact positive
  · intro c label c' before bounded taken targets
    have early : ∀ campaign ∈ c.campaigns, campaign.target ≤ bound := by
      intro campaign member
      obtain ⟨e, found⟩ := List.getElem?_of_mem member
      obtain ⟨phase, kept⟩ := (Cluster.step_event taken).campaigns_kept found
      have below := targets _ (List.mem_of_getElem? kept)
      exact below
    exact step_view_le before taken (by omega) early (bounded early)

end Bounds

/-- What one step does to a campaign, with the label that loses a call of it. -/
inductive CampaignTurn (c : Cluster n) (label : Label n) (c' : Cluster n) (e : Nat) (campaign : Campaign n) :
    CampaignPhase → Prop where
  | rests : CampaignTurn c label c' e campaign campaign.phase
  | misses {attempt : Nat} {outcomes : List (Option ElectResponse)} (named : label = .electFails e)
      (asks : campaign.phase = .asking attempt outcomes) :
      CampaignTurn c label c' e campaign (.asking attempt (outcomes ++ [none]))
  | hears {attempt : Nat} {outcomes : List (Option ElectResponse)} {i : Fin n} {request : ElectRequest}
      {response : ElectResponse} (asks : campaign.phase = .asking attempt outcomes)
      (place : (electPeers campaign.server)[outcomes.length]? = some i)
      (received : .electReply e attempt i request response ∈ c.msgs) :
      CampaignTurn c label c' e campaign (.asking attempt (outcomes ++ [some response]))
  | retries {attempt : Nat} {outcomes : List (Option ElectResponse)}
      (asks : campaign.phase = .asking attempt outcomes) :
      CampaignTurn c label c' e campaign (.asking (attempt + 1) [])
  | ends {phase : CampaignPhase} {attempt : Nat} {outcomes : List (Option ElectResponse)}
      (asks : campaign.phase = .asking attempt outcomes)
      (asked : outcomes.length = (electPeers campaign.server).length)
      (ended : (concludeElection n (c.servers campaign.server) campaign.target (electTally outcomes)).2 ≠ .retry)
      (moved : c'.servers campaign.server =
        (concludeElection n (c.servers campaign.server) campaign.target (electTally outcomes)).1) :
      CampaignTurn c label c' e campaign phase

/-- What one step does to the list of campaigns: nothing, a new campaign, or a turn of one of them. -/
inductive CampaignsStep (c : Cluster n) (label : Label n) (c' : Cluster n) : Prop where
  | same (rests : c'.campaigns = c.campaigns)
  | grows {campaign : Campaign n} (added : c'.campaigns = c.campaigns ++ [campaign])
  | moves {e : Nat} {campaign : Campaign n} {phase : CampaignPhase} (found : c.campaigns[e]? = some campaign)
      (set : c'.campaigns = c.campaigns.set e { campaign with phase })
      (turn : CampaignTurn c label c' e campaign phase)

section Turns

variable {c c' : Cluster n} {label : Label n}

theorem receive_campaigns {k : Nat} (taken : c.receive k = some c') : CampaignsStep c (.receive k) c' := by
  simp only [Cluster.receive, Cluster.acceptOutcome] at taken
  split at taken
  case h_3 e attempt i request response sent =>
    split at taken
    · cases taken
    next campaign found =>
      split at taken
      next current outcomes asks =>
        split at taken <;> cases taken
        next matches_ =>
          obtain ⟨rfl, place⟩ := matches_
          exact .moves found rfl (.hears asks place (List.mem_of_getElem? sent))
      · cases taken
  all_goals (repeat' split at taken) <;> cases taken <;> exact .same rfl

theorem electFails_campaigns {e : Nat} (taken : c.electFails e = some c') :
    CampaignsStep c (.electFails e) c' := by
  unfold Cluster.electFails at taken
  split at taken
  · cases taken
  next campaign found =>
    split at taken
    next attempt outcomes asks =>
      split at taken <;> cases taken
      exact .moves found rfl (.misses rfl asks)
    · cases taken

theorem concludeElection_campaigns {e : Nat} (taken : c.concludeElection e = some c') :
    CampaignsStep c (.concludeElection e) c' := by
  unfold Cluster.concludeElection at taken
  split at taken
  · cases taken
  next campaign found =>
    split at taken
    next attempt outcomes asks =>
      split at taken <;> cases taken
      next ready =>
        have server : (c.endElection e campaign attempt (Paxos.concludeElection n (c.servers campaign.server)
            campaign.target (electTally outcomes))).servers campaign.server = (Paxos.concludeElection n
              (c.servers campaign.server) campaign.target (electTally outcomes)).1 := by
          rw [endElection_servers, Function.update_self]
        cases ended : (Paxos.concludeElection n (c.servers campaign.server) campaign.target
            (electTally outcomes)).2 with
        | retry =>
            refine .moves found ?_ (.retries asks)
            simp [Cluster.endElection, ended, Cluster.electOutcome]
        | won =>
            refine @CampaignsStep.moves n c _ _ e campaign .won found ?_
              (.ends asks ready.1 (by simp [ended]) server)
            simp [Cluster.endElection, ended]
        | lost =>
            refine @CampaignsStep.moves n c _ _ e campaign .lost found ?_
              (.ends asks ready.1 (by simp [ended]) server)
            simp [Cluster.endElection, ended]
    · cases taken

theorem step_campaigns (taken : c.step label = some c') : CampaignsStep c label c' := by
  cases label with
  | receive k => exact receive_campaigns taken
  | electFails e => exact electFails_campaigns taken
  | concludeElection e => exact concludeElection_campaigns taken
  | detect i =>
      simp only [Cluster.step, Cluster.detect] at taken
      (repeat' split at taken) <;> cases taken
      all_goals first | exact .same rfl | exact .grows rfl
  | start i seq v =>
      simp only [Cluster.step, Cluster.start] at taken
      split at taken <;> cases taken
      exact .same (Cluster.spawn_campaigns _ _ _ _ _)
  | begin r =>
      simp only [Cluster.step, Cluster.begin] at taken
      (repeat' split at taken) <;> cases taken
      all_goals exact .same rfl
  | propose r =>
      simp only [Cluster.step, Cluster.propose] at taken
      (repeat' split at taken) <;> cases taken
      all_goals exact .same rfl
  | conclude r =>
      simp only [Cluster.step, Cluster.conclude] at taken
      (repeat' split at taken) <;> cases taken
      all_goals exact .same rfl
  | finishLearn r =>
      simp only [Cluster.step, Cluster.finishLearn] at taken
      (repeat' split at taken) <;> cases taken
      exact .same rfl
  | forward f =>
      simp only [Cluster.step, Cluster.forward] at taken
      (repeat' split at taken) <;> cases taken
      all_goals exact .same rfl
  | forwardReturns f =>
      simp only [Cluster.step, Cluster.forwardReturns, Cluster.endParent] at taken
      (repeat' split at taken) <;> cases taken
      all_goals exact .same rfl
  | deliver k =>
      simp only [Cluster.step, Cluster.deliver, Cluster.start] at taken
      (repeat' split at taken) <;> cases taken
      all_goals first | exact .same rfl | exact .same (Cluster.spawn_campaigns _ _ _ _ _)
  | prepareFails r =>
      simp only [Cluster.step, Cluster.prepareFails] at taken
      (repeat' split at taken) <;> cases taken
      exact .same rfl
  | acceptFails r i =>
      simp only [Cluster.step, Cluster.acceptOutcome] at taken
      (repeat' split at taken) <;> cases taken
      exact .same rfl
  | beatFails b =>
      simp only [Cluster.step, Cluster.beatFails] at taken
      (repeat' split at taken) <;> cases taken
      exact .same rfl
  | quietEnds i =>
      simp only [Cluster.step, Cluster.quietEnds] at taken
      split at taken <;> cases taken
      exact .same rfl
  | beat i =>
      simp only [Cluster.step, Cluster.beat] at taken
      (repeat' split at taken) <;> cases taken
      all_goals exact .same rfl
  | sendBeat b =>
      simp only [Cluster.step, Cluster.sendBeat] at taken
      (repeat' split at taken) <;> cases taken
      exact .same rfl

/-- A campaign stays in its place, and either rests or takes the turn of the step. -/
theorem step_campaign (taken : c.step label = some c') {e : Nat} {campaign : Campaign n}
    (found : c.campaigns[e]? = some campaign) :
    ∃ phase, c'.campaigns[e]? = some { campaign with phase } ∧ CampaignTurn c label c' e campaign phase := by
  cases step_campaigns taken with
  | same rests => exact ⟨campaign.phase, by rw [rests]; exact found, .rests⟩
  | grows added =>
      rw [added]
      exact ⟨campaign.phase, place_append found _, .rests⟩
  | moves there set turn =>
      rw [set]
      exact place_set_turn (fun campaign phase => { campaign with phase }) there turn found rfl .rests

end Turns

/-- The peer that the campaign is calling. -/
def Cluster.electCallee (c : Cluster n) (e : Nat) : Option (Fin n) :=
  (c.campaigns[e]?).bind fun campaign =>
    match campaign.phase with
    | .asking _ outcomes => (electPeers campaign.server)[outcomes.length]?
    | .won | .lost => none

/-- No call of a campaign to a live server fails. -/
def VotersAnswer (live : Fin n → Prop) (c : Cluster n) : Label n → Prop
  | .electFails e => ∀ peer ∈ c.electCallee e, ¬ live peer
  | _ => True

instance (live : Fin n → Prop) [DecidablePred live] (c : Cluster n) :
    (label : Label n) → Decidable (VotersAnswer live c label)
  | .electFails e => inferInstanceAs (Decidable (∀ peer ∈ c.electCallee e, ¬ live peer))
  | .start .. | .begin _ | .propose _ | .conclude _ | .finishLearn _ | .forward _ | .forwardReturns _
  | .deliver _ | .receive _ | .prepareFails _ | .acceptFails .. | .beatFails _ | .detect _ | .quietEnds _
  | .concludeElection _ | .beat _ | .sendBeat _ => isTrue trivial

/-- The live peers that the campaign has called have come to its target, and so have its server and all
live servers when it has ended. -/
structure Campaign.Followed (live : Fin n → Prop) (c : Cluster n) (campaign : Campaign n) : Prop where
  positive : 0 ≤ campaign.target
  called : ∀ attempt outcomes, campaign.phase = .asking attempt outcomes → ∀ k peer,
    (electPeers campaign.server)[k]? = some peer → k < outcomes.length → live peer →
      campaign.target ≤ (c.servers peer).view
  ended : campaign.phase = .won ∨ campaign.phase = .lost →
    ∀ i, live i ∨ i = campaign.server → campaign.target ≤ (c.servers i).view

section Followers

variable {c c' : Cluster n} {label : Label n} {live : Fin n → Prop}

theorem electReply_target (reached : c.Reached) {e attempt : Nat} {i : Fin n} {campaign : Campaign n}
    {request : ElectRequest} {response : ElectResponse} (found : c.campaigns[e]? = some campaign)
    (replied : .electReply e attempt i request response ∈ c.msgs) :
    campaign.target ≤ (c.servers i).view ∧ (response.status = .reject → campaign.target < response.view) := by
  obtain ⟨asked, reaches, _, rejects⟩ := electReply_reaches reached replied
  obtain ⟨other, again, target⟩ := electRequest_target reached asked
  cases found.symm.trans again
  rw [← target]
  exact ⟨reaches, rejects⟩

/-- A new campaign has called nobody. -/
theorem followed_new (reached : c.Reached) (taken : c.step label = some c') {e : Nat} {campaign : Campaign n}
    (missing : c.campaigns[e]? = none) (after : c'.campaigns[e]? = some campaign) :
    campaign.Followed live c' := by
  have event := Cluster.step_event taken
  obtain ⟨view, offset, election, target⟩ := event.campaign_spawned missing after
  obtain ⟨here, larger, _⟩ := PaxosImpl.detectLeaderFailure_target (view_nonneg reached _) election
  have above := view_nonneg reached campaign.server
  have asks : campaign.phase = .asking 0 [] := by
    cases event.campaigns after with
    | new _ asks => exact asks
    | old found => cases missing.symm.trans found
    | hears found => cases missing.symm.trans found
    | unwon found => cases missing.symm.trans found
    | wins found => cases missing.symm.trans found
  refine ⟨by omega, fun attempt outcomes phase k peer _ short => ?_, fun ended => ?_⟩
  · rw [asks] at phase
    cases phase
    exact absurd short (Nat.not_lt_zero k)
  · rw [asks] at ended
    obtain ended | ended := ended <;> cases ended

/-- A step keeps what a campaign knows of its followers when the live ones answer. -/
theorem Campaign.Followed.step (reached : c.Reached) (answer : VotersAnswer live c label)
    (taken : c.step label = some c') {e : Nat} {campaign : Campaign n}
    (found : c.campaigns[e]? = some campaign) (followed : campaign.Followed live c) {phase : CampaignPhase}
    (turn : CampaignTurn c label c' e campaign phase) :
    ({ campaign with phase } : Campaign n).Followed live c' := by
  have grows (i : Fin n) := ((Cluster.step_event taken).servers i).view_mono
  have heard {attempt : Nat} {outcomes : List (Option ElectResponse)} {outcome : Option ElectResponse}
      (asks : campaign.phase = .asking attempt outcomes)
      (last : ∀ peer, (electPeers campaign.server)[outcomes.length]? = some peer → live peer →
        campaign.target ≤ (c.servers peer).view) :
      ({ campaign with phase := .asking attempt (outcomes ++ [outcome]) } : Campaign n).Followed live c' := by
    refine ⟨followed.positive, fun _ _ same k peer place short alive => ?_, fun ended => ?_⟩
    · cases same
      refine le_trans ?_ (grows peer)
      rw [List.length_append, List.length_singleton] at short
      by_cases inside : k < outcomes.length
      · exact followed.called attempt outcomes asks k peer place inside alive
      · obtain rfl : k = outcomes.length := by omega
        exact last peer place alive
    · obtain ended | ended := ended <;> cases ended
  cases turn with
  | rests =>
      exact ⟨followed.positive,
        fun attempt outcomes asks k peer place short alive =>
          (followed.called attempt outcomes asks k peer place short alive).trans (grows peer),
        fun ended i either => (followed.ended ended i either).trans (grows i)⟩
  | @misses attempt outcomes named asks =>
      subst named
      refine heard asks fun peer place alive => absurd alive (answer peer ?_)
      unfold Cluster.electCallee
      rw [found, Option.bind_some, asks]
      exact place
  | @hears attempt outcomes i request response asks place received =>
      refine heard asks fun peer place' _ => ?_
      cases place.symm.trans place'
      exact (electReply_target reached found received).1
  | retries asks =>
      refine ⟨followed.positive, fun _ _ same k _ _ short _ => ?_, fun ended => ?_⟩
      · cases same
        exact absurd short (Nat.not_lt_zero k)
      · obtain ended | ended := ended <;> cases ended
  | @ends _ attempt outcomes asks asked ended moved =>
      have rejects : ∀ response, some response ∈ outcomes → response.status = .reject →
          campaign.target < response.view := by
        intro response member status
        obtain ⟨k, heard⟩ := List.getElem?_of_mem member
        obtain ⟨i, request, _, replied⟩ := asking_outcome reached found asks heard
        exact (electReply_target reached found replied).2 status
      have own : campaign.target ≤ (c'.servers campaign.server).view := by
        rw [moved]
        exact concludeElection_reaches rejects ended
      have all : ∀ i, live i ∨ i = campaign.server → campaign.target ≤ (c'.servers i).view := by
        intro i either
        by_cases self : i = campaign.server
        · rw [self]
          exact own
        · have alive := either.resolve_right self
          have peer : i ∈ electPeers campaign.server := by simp [electPeers, self]
          obtain ⟨k, place⟩ := List.getElem?_of_mem peer
          have short : k < outcomes.length := by
            rw [asked]
            exact (List.getElem?_eq_some_iff.mp place).1
          exact (followed.called attempt outcomes asks k i place short alive).trans (grows i)
      refine ⟨followed.positive, fun _ _ _ k peer place _ alive => all peer (.inl alive), fun _ => all⟩

/-- In a run in which the live servers answer, every campaign is followed. -/
theorem campaigns_followed {labels : List (Label n)}
    (guarded : Guarded Cluster.step (VotersAnswer live) (Cluster.initial n) labels)
    (ran : run Cluster.step (Cluster.initial n) labels = some c) :
    c.Reached ∧ ∀ campaign ∈ c.campaigns, campaign.Followed live c := by
  refine @run_invariant _ _ _ _ (fun c : Cluster n => c.Reached ∧
    ∀ campaign ∈ c.campaigns, campaign.Followed live c) ?_ _ _ _ ?_ guarded ran
  · rintro c label c' ⟨reached, followed⟩ answer taken
    refine ⟨reached.step taken, fun campaign' member => ?_⟩
    obtain ⟨e, after⟩ := List.getElem?_of_mem member
    cases found : c.campaigns[e]? with
    | none => exact followed_new reached taken found after
    | some campaign =>
        obtain ⟨phase, kept, turn⟩ := step_campaign taken found
        cases kept.symm.trans after
        exact (followed campaign (List.mem_of_getElem? found)).step reached answer taken found turn
  · refine ⟨.refl _ _, fun campaign member => ?_⟩
    cases member

end Followers

/-- Every thread of `Election` has returned. -/
def Cluster.ElectionsEnded (c : Cluster n) : Prop :=
  ∀ campaign ∈ c.campaigns, campaign.phase = .won ∨ campaign.phase = .lost

instance (c : Cluster n) : Decidable c.ElectionsEnded :=
  inferInstanceAs (Decidable (∀ campaign ∈ c.campaigns, _))

/-- In every run in which no call of an election to a live server fails, all live servers are in one view
whenever all elections have ended: it is the largest view of all, and its leader is in it too. -/
theorem views_agree {c : Cluster n} {live : Fin n → Prop} {labels : List (Label n)}
    (guarded : Guarded Cluster.step (VotersAnswer live) (Cluster.initial n) labels)
    (ran : run Cluster.step (Cluster.initial n) labels = some c) (ended : c.ElectionsEnded) :
    ∃ view, (∀ i, (c.servers i).view ≤ view) ∧
      ∀ i, live i ∨ leads i view → (c.servers i).view = view := by
  obtain ⟨reached, followed⟩ := campaigns_followed guarded ran
  cases largest : c.campaigns.argmax Campaign.target with
  | none =>
      have empty := List.argmax_eq_none.mp largest
      have below := @views_bounded n c 0 reached le_rfl fun campaign member => by
        rw [empty] at member
        cases member
      exact ⟨0, below, fun i _ => le_antisymm (below i) (view_nonneg reached i)⟩
  | some campaign =>
      have member := List.argmax_mem largest
      have follows := followed campaign member
      have below := @views_bounded n c campaign.target reached follows.positive
        fun other inside => List.le_of_mem_argmax inside largest
      refine ⟨campaign.target, below, fun i either => ?_⟩
      refine le_antisymm (below i) (follows.ended (ended campaign member) i (either.imp_right fun leader => ?_))
      obtain ⟨e, found⟩ := List.getElem?_of_mem member
      have residue := campaign_residue reached found
      unfold leads at leader
      rw [Int.tmod_eq_emod_of_nonneg follows.positive] at leader
      apply Fin.ext
      have inside : ((campaign.server.val : Int)) % n = campaign.server.val :=
        Int.emod_eq_of_lt (Int.natCast_nonneg _) (by have := campaign.server.isLt; omega)
      have same := residue.trans (Int.ModEq.refl _)
      unfold Int.ModEq at same
      omega

/-- Two servers give up on the third, which answers nobody, and each campaigns for its own view. -/
def rivalElections (first second : Fin 3) : List (Label 3) :=
  List.replicate 4 (.detect first) ++ List.replicate 4 (.detect second) ++
    [.electFails 0, .electFails 1, .deliver 3, .deliver 2, .receive 4, .concludeElection 1, .receive 5,
      .concludeElection 0]

theorem views_agree_rivalElections : ∃ c : Cluster 3,
    run Cluster.step (Cluster.initial 3) (rivalElections 1 2) = some c ∧ (c.servers 0).view = 0 ∧
      (c.servers 1).view = 2 ∧ (c.servers 2).view = 2 := by
  obtain ⟨c, ran, checked⟩ := (Option.any_eq_true _ _).mp (by decide +kernel :
    (run Cluster.step (Cluster.initial 3) (rivalElections 1 2)).any (fun c =>
      decide (c.ElectionsEnded ∧ (c.servers 0).view = 0 ∧ (c.servers 1).view = 2)) = true)
  obtain ⟨ended, behind, elected⟩ := of_decide_eq_true checked
  have guarded : Guarded Cluster.step (VotersAnswer fun i : Fin 3 => i ≠ 0) (Cluster.initial 3)
    (rivalElections 1 2) := by decide +kernel
  obtain ⟨view, _, agree⟩ := views_agree guarded ran ended
  have first := agree 1 (.inl (by decide))
  have second := agree 2 (.inl (by decide))
  exact ⟨c, ran, behind, elected, second.trans (first.symm.trans elected)⟩

end Chubby.Paxos
