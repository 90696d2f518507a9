/-
This file splits a step of the cluster into what it does to the messages, the servers, the rounds
and the campaigns.
-/

import Chubby.Paxos.Event
import Chubby.Paxos.ServerFacts

namespace Chubby.Paxos

variable {n : Nat}

namespace Cluster

section Components

variable (c : Cluster n) (i : Fin n) (server : PaxosImpl) (messages : List (Msg n)) (r e b : Nat)
  (round : Round n) (phase : RoundPhase n) (campaign : Campaign n)

@[simp] theorem setServer_servers : (c.setServer i server).servers = Function.update c.servers i server := rfl
@[simp] theorem setServer_rounds : (c.setServer i server).rounds = c.rounds := rfl
@[simp] theorem setServer_campaigns : (c.setServer i server).campaigns = c.campaigns := rfl
@[simp] theorem setServer_beats : (c.setServer i server).beats = c.beats := rfl
@[simp] theorem setServer_msgs : (c.setServer i server).msgs = c.msgs := rfl
@[simp] theorem setServer_forwards : (c.setServer i server).forwards = c.forwards := rfl

@[simp] theorem send_servers : (c.send messages).servers = c.servers := rfl
@[simp] theorem send_rounds : (c.send messages).rounds = c.rounds := rfl
@[simp] theorem send_campaigns : (c.send messages).campaigns = c.campaigns := rfl
@[simp] theorem send_beats : (c.send messages).beats = c.beats := rfl
@[simp] theorem send_msgs : (c.send messages).msgs = c.msgs ++ messages := rfl
@[simp] theorem send_forwards : (c.send messages).forwards = c.forwards := rfl

@[simp] theorem setPhase_servers : (c.setPhase r round phase).servers = c.servers := rfl
@[simp] theorem setPhase_rounds : (c.setPhase r round phase).rounds =
    c.rounds.set r { round with phase } := rfl
@[simp] theorem setPhase_campaigns : (c.setPhase r round phase).campaigns = c.campaigns := rfl
@[simp] theorem setPhase_beats : (c.setPhase r round phase).beats = c.beats := rfl
@[simp] theorem setPhase_msgs : (c.setPhase r round phase).msgs = c.msgs := rfl
@[simp] theorem setPhase_forwards : (c.setPhase r round phase).forwards = c.forwards := rfl

@[simp] theorem setCampaign_servers (ending : CampaignPhase) :
    (c.setCampaign e campaign ending).servers = c.servers := rfl
@[simp] theorem setCampaign_rounds (ending : CampaignPhase) :
    (c.setCampaign e campaign ending).rounds = c.rounds := rfl
@[simp] theorem setCampaign_campaigns (ending : CampaignPhase) :
    (c.setCampaign e campaign ending).campaigns = c.campaigns.set e { campaign with phase := ending } := rfl
@[simp] theorem setCampaign_beats (ending : CampaignPhase) :
    (c.setCampaign e campaign ending).beats = c.beats := rfl
@[simp] theorem setCampaign_msgs (ending : CampaignPhase) :
    (c.setCampaign e campaign ending).msgs = c.msgs := rfl
@[simp] theorem setCampaign_forwards (ending : CampaignPhase) :
    (c.setCampaign e campaign ending).forwards = c.forwards := rfl

@[simp] theorem setBeat_servers (beat : Beat n) : (c.setBeat b beat).servers = c.servers := rfl
@[simp] theorem setBeat_rounds (beat : Beat n) : (c.setBeat b beat).rounds = c.rounds := rfl
@[simp] theorem setBeat_campaigns (beat : Beat n) : (c.setBeat b beat).campaigns = c.campaigns := rfl
@[simp] theorem setBeat_beats (beat : Beat n) : (c.setBeat b beat).beats = c.beats.set b beat := rfl
@[simp] theorem setBeat_msgs (beat : Beat n) : (c.setBeat b beat).msgs = c.msgs := rfl
@[simp] theorem setBeat_forwards (beat : Beat n) : (c.setBeat b beat).forwards = c.forwards := rfl

variable (seq : Int) (v : String) (action : StartAction)

@[simp] theorem spawn_servers : (c.spawn i seq v action).servers = c.servers := by
  cases action <;> rfl
@[simp] theorem spawn_campaigns : (c.spawn i seq v action).campaigns = c.campaigns := by
  cases action <;> rfl
@[simp] theorem spawn_beats : (c.spawn i seq v action).beats = c.beats := by
  cases action <;> rfl
@[simp] theorem spawn_msgs : (c.spawn i seq v action).msgs = c.msgs := by
  cases action <;> rfl

end Components

end Cluster

/-- A message that carries an accept answered with OK. -/
def Msg.isVote : Msg n → Bool
  | .acceptReply _ _ _ response => response.status = .ok
  | _ => false

theorem lastVote_append_of_not_vote (msgs new : List (Msg n)) (i : Fin n) (seq : Int)
    (silent : ∀ message ∈ new, message.isVote = false) :
    lastVote (msgs ++ new) i seq = lastVote msgs i seq := by
  induction new generalizing msgs with
  | nil => simp
  | cons message rest ih =>
      have step : lastVote (msgs ++ [message]) i seq = lastVote msgs i seq := by
        have quiet := silent message (by simp)
        unfold lastVote
        rw [List.foldl_append]
        cases message with
        | acceptReply r voter request response =>
            have refused : ¬ response.status = .ok := by simpa [Msg.isVote] using quiet
            simp [refused]
        | _ => rfl
      have later := ih (msgs ++ [message]) fun other member =>
        silent other (List.mem_cons_of_mem _ member)
      rw [List.append_assoc] at later
      exact later.trans step

theorem lastVote_append_vote (msgs : List (Msg n)) (r : Nat) (voter i : Fin n)
    (request : AcceptRequest) (response : AcceptResponse) (voted : response.status = .ok) (seq : Int) :
    lastVote (msgs ++ [.acceptReply r voter request response]) i seq =
      if voter = i ∧ request.seq = seq then some (request.view, request.value)
      else lastVote msgs i seq := by
  unfold lastVote
  rw [List.foldl_append]
  by_cases same : voter = i ∧ request.seq = seq
  · simp [same, voted]
  · rw [if_neg same]
    have other : ¬ (voter = i ∧ request.seq = seq ∧ response.status = .ok) :=
      fun all => same ⟨all.1, all.2.1⟩
    simp only [List.foldl_cons, List.foldl_nil, if_neg other]

/-- A value that some message offers as decided for a slot. -/
def Offered (c : Cluster n) (seq : Int) (value : String) : Prop :=
  (∃ r i, .learnRequest r i ⟨seq, value⟩ ∈ c.msgs) ∨
  (∃ b i request slot, .heartbeatRequest b i request ∈ c.msgs ∧ request.slots seq = some slot ∧
    slot.value = value) ∨
  (∃ b i response slot, .heartbeatReply b i response ∈ c.msgs ∧ response.slots seq = some slot ∧
    slot.value = value)

/-- The function of the code that a step applies to one server, if any. -/
inductive Writes (c : Cluster n) (label : Label n) (c' : Cluster n) (j : Fin n) : Prop where
  | nothing (after : c'.servers j = c.servers j)
  | start {seq : Int} (after : c'.servers j = ((c.servers j).start j seq).1)
  | startOnForward {seq : Int} (after : c'.servers j = ((c.servers j).startOnForward j seq).1)
  | begins {r : Nat} {round : Round n} (named : label = .begin r) (found : c.rounds[r]? = some round)
      (waits : round.phase = .waiting) (own : round.server = j)
      (free : c.slotFree round.server round.seq) (entered : c' = c.enterPrepare r round)
      (after : c'.servers j = (c.servers j).setSlot round.seq { (c.servers j).slotAt round.seq with
        n := nextNumber n ((c.servers j).slotAt round.seq) })
  | hears {r : Nat} {round : Round n} {number highestN : Int} {outcomes : List (Option Promise)}
      {outcome : Option Promise} (found : c.rounds[r]? = some round)
      (prepares : round.phase = .preparing number highestN outcomes) (own : round.server = j)
      (heard : c' = c.prepareOutcome r round number highestN (outcomes ++ [outcome]))
      (after : c'.servers j = (c.servers j).setSlot round.seq { (c.servers j).slotAt round.seq with
        highestN := (prepareLocals n round.v highestN (outcomes ++ [outcome])).slotHighestN })
  | raiseView {view : Int} (after : c'.servers j = (c.servers j).raiseView view)
  | concludeElection {e attempt : Nat} {campaign : Campaign n} {outcomes : List (Option ElectResponse)}
      (found : c.campaigns[e]? = some campaign) (self : campaign.server = j)
      (asks : campaign.phase = .asking attempt outcomes)
      (asked : outcomes.length = (electPeers campaign.server).length)
      (after : c'.servers j = (Paxos.concludeElection n (c.servers campaign.server) campaign.target
        (electTally outcomes)).1)
  | detectLeaderFailure (after : c'.servers j = ((c.servers j).detectLeaderFailure j).1)
  | quietPeriodEnds (after : c'.servers j = (c.servers j).quietPeriodEnds)
  | prepare {k r : Nat} {request : PrepareRequest} (named : label = .deliver k)
      (sent : c.msgs[k]? = some (.prepareRequest r j request))
      (after : c'.servers j = ((c.servers j).prepare j request).1)
  | accept {k r : Nat} {request : AcceptRequest} (named : label = .deliver k)
      (sent : c.msgs[k]? = some (.acceptRequest r j request))
      (handled : c' = c.handled j ((c.servers j).accept j request) (.acceptReply r j request))
      (after : c'.servers j = ((c.servers j).accept j request).1)
  | learn {k r : Nat} {request : DecideRequest} (named : label = .deliver k)
      (sent : c.msgs[k]? = some (.learnRequest r j request))
      (after : c'.servers j = ((c.servers j).learn j request true).1)
  | elect {request : ElectRequest} (after : c'.servers j = ((c.servers j).elect request).1)
  | heartbeat {k b : Nat} {request : HeartbeatRequest} (named : label = .deliver k)
      (sent : c.msgs[k]? = some (.heartbeatRequest b j request))
      (after : c'.servers j = ((c.servers j).heartbeat j request).1)
  | copyDecided {k b : Nat} {i : Fin n} {response : HeartbeatResponse} (named : label = .receive k)
      (sent : c.msgs[k]? = some (.heartbeatReply b i response))
      (after : c'.servers j = (c.servers j).copyDecided response.slots)

/-- Only one server is written. -/
theorem Writes.of_update {c c' : Cluster n} {label : Label n} {i : Fin n} {server : PaxosImpl}
    (written : c'.servers = Function.update c.servers i server)
    (own : c'.servers i = server → Writes c label c' i) (j : Fin n) : Writes c label c' j := by
  by_cases same : j = i
  · subst same
    exact own (by rw [written, Function.update_self])
  · exact .nothing (by rw [written, Function.update_of_ne same])

theorem endElection_servers (c : Cluster n) (e : Nat) (campaign : Campaign n) (attempt : Nat)
    (result : PaxosImpl × ElectionEnd) : (c.endElection e campaign attempt result).servers =
      Function.update c.servers campaign.server result.1 := by
  unfold Cluster.endElection
  dsimp only
  split <;> rfl

theorem endElection_rounds (c : Cluster n) (e : Nat) (campaign : Campaign n) (attempt : Nat)
    (result : PaxosImpl × ElectionEnd) : (c.endElection e campaign attempt result).rounds = c.rounds := by
  unfold Cluster.endElection
  dsimp only
  split <;> rfl

theorem endElection_beats (c : Cluster n) (e : Nat) (campaign : Campaign n) (attempt : Nat)
    (result : PaxosImpl × ElectionEnd) : (c.endElection e campaign attempt result).beats = c.beats := by
  unfold Cluster.endElection
  dsimp only
  split <;> rfl

theorem Event.written {c c' : Cluster n} {label : Label n} (event : Event c label c') (j : Fin n) :
    Writes c label c' j := by
  cases event with
  | start => exact .of_update (Cluster.spawn_servers _ _ _ _ _) .start j
  | @beginPrepare r round found waits free seen =>
      exact .of_update (by rfl) (.begins rfl found waits rfl free rfl) j
  | prepareOutcome found prepares continues received =>
      exact .of_update (by rfl) (.hears found prepares rfl rfl) j
  | proposeForward found prepares asked => exact .of_update (by rfl) .raiseView j
  | forwardProposes found action moved => exact .of_update (by rfl) .startOnForward j
  | forwardCalls found moved => exact .of_update (by rfl) .startOnForward j
  | electionEnds found asks asked =>
      exact .of_update (endElection_servers _ _ _ _ _) (.concludeElection found rfl asks asked) j
  | detect => exact .of_update (by rfl) .detectLeaderFailure j
  | detectCampaign election => exact .of_update (by rfl) .detectLeaderFailure j
  | quietEnds => exact .of_update (by rfl) .quietPeriodEnds j
  | prepareHandled sent => exact .of_update (by rfl) (.prepare rfl sent) j
  | acceptHandled sent => exact .of_update (by rfl) (.accept rfl sent rfl) j
  | learnHandled sent => exact .of_update (Cluster.setServer_servers _ _ _) (.learn rfl sent) j
  | electHandled sent => exact .of_update (by rfl) .elect j
  | forwardHandled sent => exact .of_update (Cluster.spawn_servers _ _ _ _ _) .start j
  | heartbeatHandled sent => exact .of_update (by rfl) (.heartbeat rfl sent) j
  | @beatReceived k b beat i response sent found =>
      refine .of_update (by rfl) (fun after => ?_) j
      by_cases self : i = beat.server
      · exact .nothing (after.trans (if_pos self))
      · exact .copyDecided rfl sent (after.trans (if_neg self))
  | _ => exact .nothing rfl

/-- What a step does to one server. -/
inductive ServerStep (c c' : Cluster n) (i : Fin n) : Prop where
  | settles (settled : PaxosImpl.Settles (c.servers i) (c'.servers i) (Offered c))
      (done : (c'.servers i).done = (c.servers i).done ∨ ∃ b request,
        .heartbeatRequest b i request ∈ c.msgs ∧ (c'.servers i).done = request.done)
  | accepts {r : Nat} {request : AcceptRequest} {response : AcceptResponse}
      (sent : .acceptRequest r i request ∈ c.msgs)
      (accepted : PaxosImpl.Accepts (c.servers i) (c'.servers i) request)
      (voted : response.status = .ok)
      (replied : c'.msgs = c.msgs ++ [.acceptReply r i request response])
  | elected {e attempt : Nat} {campaign : Campaign n} {outcomes : List (Option ElectResponse)}
      (found : c.campaigns[e]? = some campaign) (self : campaign.server = i)
      (asks : campaign.phase = .asking attempt outcomes)
      (asked : outcomes.length = (electPeers campaign.server).length)
      (won : (concludeElection n (c.servers campaign.server) campaign.target
        (electTally outcomes)).2 = .won)
      (moved : c'.servers i = (concludeElection n (c.servers campaign.server) campaign.target
        (electTally outcomes)).1)

theorem ServerStep.of_quiet {c c' : Cluster n} {i : Fin n}
    (quiet : PaxosImpl.Quiet (c.servers i) (c'.servers i)) : ServerStep c c' i :=
  .settles (quiet.settles.mono fun _ _ => False.elim) (.inl quiet.done)

theorem Event.servers {c c' : Cluster n} {label : Label n} (event : Event c label c') (j : Fin n) :
    ServerStep c c' j := by
  have still {server : PaxosImpl} (after : c'.servers j = server)
      (quiet : PaxosImpl.Quiet (c.servers j) server) : ServerStep c c' j :=
    .of_quiet (by rw [after]; exact quiet)
  cases event.written j with
  | nothing after => exact still after (.refl _)
  | start after => exact still after (PaxosImpl.start_quiet _ _ _)
  | startOnForward after => exact still after (PaxosImpl.startOnForward_quiet _ _ _)
  | begins named found waits own free entered after =>
      exact still after (PaxosImpl.quiet_setSlot rfl rfl rfl)
  | hears found prepares own heard after => exact still after (PaxosImpl.quiet_setSlot rfl rfl rfl)
  | raiseView after => exact still after (PaxosImpl.quiet_raiseView _ _)
  | @concludeElection e attempt campaign outcomes found self asks asked after =>
      by_cases won : (concludeElection n (c.servers campaign.server) campaign.target
          (electTally outcomes)).2 = .won
      · exact .elected found self asks asked won after
      · subst self
        exact still after (concludeElection_quiet won)
  | detectLeaderFailure after => exact still after (PaxosImpl.detectLeaderFailure_quiet _ _)
  | quietPeriodEnds after => exact still after (PaxosImpl.quiet_of_slots le_rfl rfl rfl rfl rfl)
  | prepare named sent after => exact still after (PaxosImpl.prepare_quiet _ _ _)
  | @accept k r request named sent handled after =>
      rcases (c.servers j).accept_outcomes j request with same | ⟨_, _, _, _, quiet⟩ |
        ⟨response, replied, voted, accepted⟩
      · exact still after (by rw [same]; exact .refl _)
      · exact still after quiet
      · refine .accepts (List.mem_of_getElem? sent) ?_ voted ?_
        · rw [after]
          exact accepted
        · simp [handled, Cluster.handled, replied]
  | @learn k r request named sent after =>
      refine .settles ?_ (.inl ?_)
      · rw [after]
        apply (PaxosImpl.learn_settles (c.servers j) j request true).mono
        rintro seq value ⟨rfl, rfl⟩
        exact .inl ⟨r, j, List.mem_of_getElem? sent⟩
      · rw [after]
        exact PaxosImpl.learn_done (c.servers j) j request true
  | elect after => exact still after (PaxosImpl.elect_quiet _ _)
  | @heartbeat k b request named sent after =>
      refine .settles ?_ ?_
      · rw [after]
        apply (PaxosImpl.heartbeat_settles (c.servers j) j request).mono
        rintro seq value ⟨slot, found, same⟩
        exact .inr (.inl ⟨b, j, request, slot, List.mem_of_getElem? sent, found, same⟩)
      · rw [after]
        refine (PaxosImpl.heartbeat_done (c.servers j) j request).imp_right fun copied => ?_
        exact ⟨b, request, List.mem_of_getElem? sent, copied⟩
  | @copyDecided k b i response named sent after =>
      refine .settles ?_ (.inl ?_)
      · rw [after]
        apply (PaxosImpl.copyDecided_settles _ response.slots).mono
        rintro seq value ⟨slot, member, same⟩
        exact .inr (.inr ⟨b, i, response, slot, List.mem_of_getElem? sent, member, same⟩)
      · rw [after]
        rfl

/-- A label makes a round enter its accept phase with a value, from the skip or the prepare loop. -/
inductive Proposes (c : Cluster n) (r : Nat) (round : Round n) : Label n → String → Prop where
  | skips (skips : c.skipsPrepare round) (free : c.slotFree round.server round.seq) :
      Proposes c r round (.begin r) round.v
  | prepared {number highestN : Int} {outcomes : List (Option Promise)} {value : String}
      (prepares : round.phase = .preparing number highestN outcomes)
      (done : prepareDone n round.v highestN outcomes = true)
      (chosen : afterPrepare round.v round.myView (prepareLocals n round.v highestN outcomes) =
        .accept value) : Proposes c r round (.propose r) value

/-- A label makes a round enter its learn phase with a value, from the prepare loop or the accepts. -/
inductive Learns (r : Nat) (round : Round n) : Label n → String → Prop where
  | reported {number highestN : Int} {outcomes : List (Option Promise)} {value : String}
      (prepares : round.phase = .preparing number highestN outcomes)
      (chosen : afterPrepare round.v round.myView (prepareLocals n round.v highestN outcomes) =
        .learn value) : Learns r round (.propose r) value
  | accepted {value : String} {outcomes : Fin n → Option (Option AcceptResponse)}
      (accepts : round.phase = .accepting value outcomes)
      (unreported : isDecidedAcc round.seq (acceptOutcomes outcomes) = false) :
      Learns r round (.conclude r) value

/-- The reason for which a message is sent. -/
def Fresh (c : Cluster n) (label : Label n) (c' : Cluster n) : Msg n → Prop
  | .prepareRequest r _ request => ∃ round, c'.rounds[r]? = some round ∧
      request.seq = round.seq ∧ round.phase ≠ .waiting
  | .prepareReply r i promise => ∃ request, .prepareRequest r i request ∈ c.msgs ∧
      ((c.servers i).prepare i request).2 = .ok promise.response ∧
      promise.lastVote = (lastVote c.msgs i request.seq).map Prod.fst
  | .acceptRequest r _ request => ∃ round value, c.rounds[r]? = some round ∧
      request = ⟨round.seq, round.myView, value⟩ ∧ Proposes c r round label value ∧
      c' = c.enterAccept r round value
  | .acceptReply r i request response => .acceptRequest r i request ∈ c.msgs ∧
      ((c.servers i).accept i request).2 = .ok response ∧
      c'.servers i = ((c.servers i).accept i request).1
  | .learnRequest r _ request => ∃ round value, c.rounds[r]? = some round ∧
      request = ⟨round.seq, value⟩ ∧ Learns r round label value
  | .electRequest e _ _ request => ∃ campaign, c'.campaigns[e]? = some campaign ∧
      request.view = campaign.target
  | .electReply e attempt i request response => .electRequest e attempt i request ∈ c.msgs ∧
      response = ((c.servers i).elect request).2 ∧ c'.servers i = ((c.servers i).elect request).1
  | .forwardRequest _ _ _ _ => True
  | .heartbeatRequest b _ request => ∃ beat, c.beats[b]? = some beat ∧ request.slots = beat.slots ∧
      request.done = beat.done ++ (c.servers beat.server).done
  | .heartbeatReply _ i response => ∃ request, ((c.servers i).heartbeat i request).2 = .ok response

theorem getElem?_set_self_of_some {A : Type} {list : List A} {index : Nat} {old new : A}
    (found : list[index]? = some old) : (list.set index new)[index]? = some new := by
  have inside : index < list.length := (List.getElem?_eq_some_iff.mp found).1
  simp [inside]

theorem getElem?_set_cases {A : Type} {list : List A} {index query : Nat} {new value : A}
    (after : (list.set index new)[query]? = some value) :
    list[query]? = some value ∨ (index = query ∧ value = new) := by
  by_cases same : index = query
  · subst same
    rw [List.getElem?_set_self'] at after
    rcases found : list[index]? with _ | old
    · rw [found] at after; cases after
    · rw [found] at after; cases after; exact .inr ⟨rfl, rfl⟩
  · rw [List.getElem?_set_ne same] at after
    exact .inl after

theorem getElem?_concat_cases {A : Type} {list : List A} {query : Nat} {new value : A}
    (after : (list ++ [new])[query]? = some value) :
    list[query]? = some value ∨ (list[query]? = none ∧ value = new) := by
  by_cases inside : query < list.length
  · rw [List.getElem?_append_left inside] at after
    exact .inl after
  · rw [List.getElem?_append_right (by omega), List.getElem?_singleton] at after
    split at after
    · cases after
      exact .inr ⟨List.getElem?_eq_none (by omega), rfl⟩
    · cases after

theorem fresh_prepareRequests {c c' : Cluster n} {label : Label n} {r : Nat}
    {round after : Round n} {number : Int} {called : Nat} (found : c'.rounds[r]? = some after)
    (same : round.seq = after.seq) (moved : after.phase ≠ .waiting) :
    ∀ message ∈ Cluster.prepareRequests r round number called, Fresh c label c' message := by
  intro message member
  unfold Cluster.prepareRequests at member
  split at member
  · simp only [List.mem_singleton] at member
    subst member
    exact ⟨after, found, same, moved⟩
  · cases member

theorem fresh_electRequests {c c' : Cluster n} {label : Label n} {e attempt called : Nat}
    {campaign after : Campaign n}
    (found : c'.campaigns[e]? = some after) (same : campaign.target = after.target) :
    ∀ message ∈ Cluster.electRequests e campaign attempt called, Fresh c label c' message := by
  intro message member
  unfold Cluster.electRequests at member
  obtain ⟨peer, _, rfl⟩ := List.mem_map.mp member
  exact ⟨after, found, same⟩

theorem fresh_acceptRequests {c : Cluster n} {label : Label n} {r : Nat} {round : Round n}
    {value : String} (found : c.rounds[r]? = some round) (proposes : Proposes c r round label value) :
    ∀ message ∈ Cluster.acceptRequests r round value,
      Fresh c label (c.enterAccept r round value) message := by
  intro message member
  obtain ⟨peer, _, rfl⟩ := List.mem_map.mp member
  exact ⟨round, value, found, rfl, proposes, rfl⟩

theorem fresh_learnRequests {c c' : Cluster n} {label : Label n} {r : Nat} {round : Round n}
    {value : String} (found : c.rounds[r]? = some round) (learns : Learns r round label value) :
    ∀ message ∈ Cluster.learnRequests r round value, Fresh c label c' message := by
  intro message member
  obtain ⟨peer, _, rfl⟩ := List.mem_map.mp member
  exact ⟨round, value, found, rfl, learns⟩

/-- A handler sends at most the reply to its request. -/
theorem reply_of_mem {Response : Type} {result : Except HandlerError Response} {reply : Response → Msg n}
    {message : Msg n} (member : message ∈ (match result with
      | .error _ => []
      | .ok response => [reply response])) :
    ∃ response, result = .ok response ∧ message = reply response := by
  cases result with
  | error failure => cases member
  | ok response => exact ⟨response, rfl, List.mem_singleton.mp member⟩

/-- Messages are only added, each for a reason. -/
theorem Event.msgs {c c' : Cluster n} {label : Label n} (event : Event c label c') :
    ∃ new, c'.msgs = c.msgs ++ new ∧ ∀ message ∈ new, Fresh c label c' message := by
  have none_sent (same : c'.msgs = c.msgs) :
      ∃ new, c'.msgs = c.msgs ++ new ∧ ∀ message ∈ new, Fresh c label c' message :=
    ⟨[], by simp [same], by simp⟩
  cases event with
  | start => exact none_sent (by simp)
  | beginEnds found waits => exact none_sent rfl
  | beginPrepare found waits free seen =>
      exact ⟨_, rfl, fresh_prepareRequests (getElem?_set_self_of_some found) rfl (by simp)⟩
  | skip found skips free => exact ⟨_, rfl, fresh_acceptRequests found (.skips skips free)⟩
  | @prepareOutcome label r round number highestN outcomes outcome found prepares continues received =>
      refine ⟨_, rfl, ?_⟩
      intro message member
      have after : (c.prepareOutcome r round number highestN (outcomes ++ [outcome])).rounds[r]? =
          some { round with phase := .preparing number highestN (outcomes ++ [outcome]) } :=
        getElem?_set_self_of_some found
      split at member
      · cases member
      · exact fresh_prepareRequests after rfl (by simp) message member
  | proposeForward found prepares asked => exact none_sent rfl
  | proposeAccept found prepares done chosen =>
      exact ⟨_, rfl, fresh_acceptRequests found (.prepared prepares done chosen)⟩
  | proposeLearn found prepares chosen =>
      exact ⟨_, rfl, fresh_learnRequests found (.reported prepares chosen)⟩
  | acceptOutcome found accepts received => exact none_sent rfl
  | concludeEnds found accepts reported => exact none_sent rfl
  | concludeLearn found accepts unreported =>
      exact ⟨_, rfl, fresh_learnRequests found (.accepted accepts unreported)⟩
  | finishLearn found learns => exact none_sent rfl
  | forwardProposes found action moved => exact none_sent rfl
  | forwardCalls found moved => exact ⟨_, rfl, by simp [Fresh]⟩
  | forwardReturns found moved => exact none_sent rfl
  | parentEnds found moved parent forwarding => exact none_sent rfl
  | electOutcome found asks received =>
      exact ⟨_, rfl, fresh_electRequests (getElem?_set_self_of_some found) rfl⟩
  | @electionEnds e attempt campaign outcomes found asks asked =>
      unfold Cluster.endElection at none_sent ⊢
      dsimp only at none_sent ⊢
      split
      · exact ⟨[], by simp, by simp⟩
      · exact ⟨[], by simp, by simp⟩
      · exact ⟨_, rfl, fresh_electRequests (getElem?_set_self_of_some found) rfl⟩
  | detect => exact none_sent rfl
  | @detectCampaign i timers view offset election =>
      refine ⟨_, rfl, ?_⟩
      refine @fresh_electRequests _ _ _ _ _ _ _ _ ⟨i, view + offset, .asking 0 []⟩ ?_ rfl
      simp
  | quietEnds => exact none_sent rfl
  | beat added => exact none_sent rfl
  | @sendBeat b beat peer found waits next =>
      refine ⟨_, rfl, ?_⟩
      intro message member
      simp only [List.mem_singleton] at member
      subst member
      exact ⟨beat, found, rfl, rfl⟩
  | beatFails found => exact none_sent rfl
  | @prepareHandled k r i request sent =>
      refine ⟨_, rfl, ?_⟩
      intro message member
      obtain ⟨response, replied, rfl⟩ := reply_of_mem member
      exact ⟨request, List.mem_of_getElem? sent, replied, rfl⟩
  | @acceptHandled k r i request sent =>
      refine ⟨_, rfl, ?_⟩
      intro message member
      obtain ⟨response, replied, rfl⟩ := reply_of_mem member
      exact ⟨List.mem_of_getElem? sent, replied, by simp [Cluster.handled]⟩
  | learnHandled sent => exact none_sent rfl
  | @electHandled k e attempt i request sent =>
      refine ⟨_, rfl, ?_⟩
      intro message member
      simp only [List.mem_singleton] at member
      subst member
      exact ⟨List.mem_of_getElem? sent, rfl, by simp⟩
  | forwardHandled sent => exact none_sent (by simp)
  | @heartbeatHandled k b i request sent =>
      refine ⟨_, rfl, ?_⟩
      intro message member
      obtain ⟨response, replied, rfl⟩ := reply_of_mem member
      exact ⟨request, replied⟩
  | beatReceived sent found => exact none_sent rfl

/-- A handler has sent the message to answer its caller. -/
def Msg.isReply : Msg n → Bool
  | .prepareReply _ _ _ | .acceptReply _ _ _ _ | .electReply _ _ _ _ _ | .heartbeatReply _ _ _ => true
  | _ => false

theorem Msg.isVote_of_request {message : Msg n} (request : message.isReply = false) :
    message.isVote = false := by
  cases message with
  | acceptReply r i asked response => cases request
  | _ => rfl

/-- A step sends requests only, or it runs a handler and sends its reply. -/
inductive Replies (c : Cluster n) : Label n → Cluster n → Prop where
  | requests {label : Label n} {c' : Cluster n} {new : List (Msg n)} (added : c'.msgs = c.msgs ++ new)
      (asks : ∀ message ∈ new, message.isReply = false) : Replies c label c'
  | prepare {k r : Nat} {i : Fin n} {request : PrepareRequest}
      (sent : c.msgs[k]? = some (.prepareRequest r i request)) :
      Replies c (.deliver k) (c.handled i ((c.servers i).prepare i request) fun response =>
        .prepareReply r i ⟨response, (lastVote c.msgs i request.seq).map Prod.fst⟩)
  | accept {k r : Nat} {i : Fin n} {request : AcceptRequest}
      (sent : c.msgs[k]? = some (.acceptRequest r i request)) :
      Replies c (.deliver k) (c.handled i ((c.servers i).accept i request) (.acceptReply r i request))
  | elect {k e attempt : Nat} {i : Fin n} {request : ElectRequest}
      (sent : c.msgs[k]? = some (.electRequest e attempt i request)) :
      Replies c (.deliver k) ((c.setServer i ((c.servers i).elect request).1).send
        [.electReply e attempt i request ((c.servers i).elect request).2])
  | heartbeat {k b : Nat} {i : Fin n} {request : HeartbeatRequest}
      (sent : c.msgs[k]? = some (.heartbeatRequest b i request)) :
      Replies c (.deliver k) (c.handled i ((c.servers i).heartbeat i request) (.heartbeatReply b i))

theorem prepareRequests_ask {r : Nat} {round : Round n} {number : Int} {called : Nat} :
    ∀ message ∈ Cluster.prepareRequests r round number called, message.isReply = false := by
  unfold Cluster.prepareRequests
  split <;> simp [Msg.isReply]

theorem electRequests_ask {e attempt called : Nat} {campaign : Campaign n} :
    ∀ message ∈ Cluster.electRequests e campaign attempt called, message.isReply = false := by
  simp [Cluster.electRequests, Msg.isReply]

/-- Every step sends requests only, or it runs a handler and sends its reply. -/
theorem Event.replies {c c' : Cluster n} {label : Label n} (event : Event c label c') :
    Replies c label c' := by
  have none_ (same : c'.msgs = c.msgs) : Replies c label c' :=
    @Replies.requests n c label c' [] (by rw [same, List.append_nil]) (by simp)
  cases event with
  | prepareHandled sent => exact .prepare sent
  | acceptHandled sent => exact .accept sent
  | electHandled sent => exact .elect sent
  | heartbeatHandled sent => exact .heartbeat sent
  | start => exact none_ (Cluster.spawn_msgs _ _ _ _ _)
  | forwardHandled sent => exact none_ (Cluster.spawn_msgs _ _ _ _ _)
  | beginPrepare found waits free seen => exact .requests rfl prepareRequests_ask
  | skip found skips free => exact .requests rfl (by simp [Cluster.acceptRequests, Msg.isReply])
  | prepareOutcome found prepares continues received =>
      apply Replies.requests rfl
      split
      · simp
      · exact prepareRequests_ask
  | proposeAccept found prepares done chosen =>
      exact .requests rfl (by simp [Cluster.acceptRequests, Msg.isReply])
  | proposeLearn found prepares chosen =>
      exact .requests rfl (by simp [Cluster.learnRequests, Msg.isReply])
  | concludeLearn found accepts unreported =>
      exact .requests rfl (by simp [Cluster.learnRequests, Msg.isReply])
  | forwardCalls found moved => exact .requests rfl (by simp [Msg.isReply])
  | electOutcome found asks received => exact .requests rfl electRequests_ask
  | @electionEnds e attempt campaign outcomes found asks asked =>
      unfold Cluster.endElection
      dsimp only
      split
      · exact @Replies.requests _ _ _ _ [] (List.append_nil _).symm (by simp)
      · exact @Replies.requests _ _ _ _ [] (List.append_nil _).symm (by simp)
      · exact .requests rfl electRequests_ask
  | detectCampaign election => exact .requests rfl electRequests_ask
  | sendBeat found waits next => exact .requests rfl (by simp [Msg.isReply])
  | _ => exact none_ rfl

/-- What a step does to the phase of one round. -/
inductive PhaseStep (c : Cluster n) (label : Label n) (r : Nat) (round : Round n) :
    RoundPhase n → Prop where
  | same : PhaseStep c label r round round.phase
  | prepares {number highestN : Int} (waits : round.phase = .waiting)
      (free : c.slotFree round.server round.seq) : PhaseStep c label r round (.preparing number highestN [])
  | proposes {value : String} (proposed : Proposes c r round label value) :
      PhaseStep c label r round (.accepting value fun _ => none)
  | hears {number highestN : Int} {outcomes : List (Option Promise)} {outcome : Option Promise}
      (prepares : round.phase = .preparing number highestN outcomes)
      (continues : prepareDone n round.v highestN outcomes = false)
      (received : ∀ promise, outcome = some promise → ∃ i : Fin n, i.val = outcomes.length ∧
        .prepareReply r i promise ∈ c.msgs) :
      PhaseStep c label r round (.preparing number highestN (outcomes ++ [outcome]))
  | counts {value : String} {i : Fin n} {outcomes : Fin n → Option (Option AcceptResponse)}
      {outcome : Option AcceptResponse} (accepts : round.phase = .accepting value outcomes)
      (received : ∀ response, outcome = some response → ∃ request,
        .acceptReply r i request response ∈ c.msgs) :
      PhaseStep c label r round (.accepting value (Function.update outcomes i (some outcome)))
  | learns {value : String} (learned : Learns r round label value) :
      PhaseStep c label r round (.learning value)
  | forwards {number highestN : Int} {outcomes : List (Option Promise)}
      (prepares : round.phase = .preparing number highestN outcomes) : PhaseStep c label r round .forwarding
  | ends (final : round.phase = .waiting ∨ (∃ value, round.phase = .learning value) ∨
        round.phase = .forwarding ∨ ∃ value outcomes, round.phase = .accepting value outcomes ∧
          isDecidedAcc round.seq (acceptOutcomes outcomes) = true) : PhaseStep c label r round .finished

/-- What a new round is at its start. -/
structure NewRound (c : Cluster n) (round : Round n) : Prop where
  waits : round.phase = .waiting
  leader : leads round.server round.myView
  view : round.myView = (c.servers round.server).view
  seq : (c.servers round.server).lowestSlot ≤ round.seq ∨
    ∃ forward ∈ c.forwards, round.seq = forward.seq

/-- A round of the next state is an old one after a phase step, or a new one. -/
inductive RoundOrigin (c : Cluster n) (label : Label n) (r : Nat) (round' : Round n) : Prop where
  | old {round : Round n} (found : c.rounds[r]? = some round)
      (step : PhaseStep c label r round round'.phase) (same : round' = { round with phase := round'.phase })
  | new (missing : c.rounds[r]? = none) (fresh : NewRound c round')

theorem Event.rounds {c c' : Cluster n} {label : Label n} (event : Event c label c') {r : Nat}
    {round' : Round n} (after : c'.rounds[r]? = some round') : RoundOrigin c label r round' := by
  have kept (before : c.rounds[r]? = some round') : RoundOrigin c label r round' := .old before .same rfl
  have moved {s : Nat} {round : Round n} {phase : RoundPhase n} (found : c.rounds[s]? = some round)
      (step : PhaseStep c label s round phase)
      (written : (c.rounds.set s { round with phase })[r]? = some round') : RoundOrigin c label r round' := by
    by_cases same : s = r
    · subst same
      rw [getElem?_set_self_of_some found] at written
      cases written
      exact .old found step rfl
    · rw [List.getElem?_set_ne same] at written
      exact kept written
  have added {round : Round n} (fresh : NewRound c round)
      (appended : (c.rounds ++ [round])[r]? = some round') : RoundOrigin c label r round' := by
    rcases getElem?_concat_cases appended with before | ⟨missing, rfl⟩
    · exact kept before
    · exact .new missing fresh
  have spawned {i : Fin n} {seq : Int} {v : String} (appended : ((c.setServer i
      ((c.servers i).start i seq).1).spawn i seq v ((c.servers i).start i seq).2).rounds[r]? =
        some round') : RoundOrigin c label r round' := by
    rcases action : ((c.servers i).start i seq).2 with _ | view | _
    · rw [action] at appended; exact kept appended
    · rw [action] at appended
      obtain ⟨same, leader, above⟩ := PaxosImpl.start_newSlot action
      exact added ⟨rfl, leader, same, .inl above⟩ appended
    · rw [action] at appended; exact kept appended
  cases event with
  | start => exact spawned after
  | beginEnds found waits => exact moved found (.ends (.inl waits)) after
  | beginPrepare found waits free seen => exact moved found (.prepares waits free) after
  | skip found skips free => exact moved found (.proposes (.skips skips free)) after
  | prepareOutcome found prepares continues received =>
      exact moved found (.hears prepares continues received) after
  | proposeForward found prepares asked => exact moved found (.forwards prepares) after
  | proposeAccept found prepares done chosen =>
      exact moved found (.proposes (.prepared prepares done chosen)) after
  | proposeLearn found prepares chosen =>
      exact moved found (.learns (.reported prepares chosen)) after
  | acceptOutcome found accepts received => exact moved found (.counts accepts received) after
  | concludeEnds found accepts reported =>
      exact moved found (.ends (.inr (.inr (.inr ⟨_, _, accepts, reported⟩)))) after
  | concludeLearn found accepts unreported =>
      exact moved found (.learns (.accepted accepts unreported)) after
  | finishLearn found learns => exact moved found (.ends (.inr (.inl ⟨_, learns⟩))) after
  | @forwardProposes f forward view forwards found action _ =>
      obtain ⟨same, leader⟩ := PaxosImpl.startOnForward_newSlot action
      exact added ⟨rfl, leader, same, .inr ⟨forward, List.mem_of_getElem? found, rfl⟩⟩ after
  | parentEnds found _ parent forwarding =>
      exact moved parent (.ends (.inr (.inr (.inl forwarding)))) after
  | electionEnds found asks asked => exact kept (by rwa [endElection_rounds] at after)
  | forwardHandled sent => exact spawned after
  | _ => exact kept after

/-- A round never disappears and keeps its arguments. -/
theorem Event.rounds_kept {c c' : Cluster n} {label : Label n} (event : Event c label c') {r : Nat}
    {round : Round n} (before : c.rounds[r]? = some round) :
    ∃ phase, c'.rounds[r]? = some { round with phase } ∧ PhaseStep c label r round phase := by
  have long : c.rounds.length ≤ c'.rounds.length := by
    cases event with
    | start => unfold Cluster.spawn; split <;> simp
    | forwardHandled sent => unfold Cluster.spawn; split <;> simp
    | forwardProposes found action moved => simp
    | electionEnds found asks asked => rw [endElection_rounds]
    | _ => simp [Cluster.enterPrepare, Cluster.enterAccept, Cluster.enterLearn,
        Cluster.prepareOutcome, Cluster.electOutcome, Cluster.callBeat, Cluster.handled]
  have inside : r < c.rounds.length := (List.getElem?_eq_some_iff.mp before).1
  have exists_ : c'.rounds[r]? = some c'.rounds[r] := List.getElem?_eq_getElem (by omega)
  rcases event.rounds exists_ with @⟨old, found, step, same⟩ | ⟨missing, _⟩
  · rw [before] at found
    cases found
    exact ⟨_, exists_.trans (congrArg some same), step⟩
  · rw [before] at missing
    cases missing

/-- A step moves at most one round. -/
theorem Event.rounds_alone {c c' : Cluster n} {label : Label n} (event : Event c label c') :
    ∃ s : Nat, ∀ (r : Nat) (round : Round n), r ≠ s → c.rounds[r]? = some round →
      c'.rounds[r]? = some round := by
  have moved {s : Nat} {round' : Round n} (written : c'.rounds = c.rounds.set s round') :
      ∃ s : Nat, ∀ (r : Nat) (round : Round n), r ≠ s → c.rounds[r]? = some round →
        c'.rounds[r]? = some round := by
    refine ⟨s, fun r round other found => ?_⟩
    rw [written, List.getElem?_set_ne (Ne.symm other)]
    exact found
  have added {new : List (Round n)} (appended : c'.rounds = c.rounds ++ new) :
      ∃ s : Nat, ∀ (r : Nat) (round : Round n), r ≠ s → c.rounds[r]? = some round →
        c'.rounds[r]? = some round := by
    refine ⟨0, fun r round _ found => ?_⟩
    rw [appended, List.getElem?_append_left (List.getElem?_eq_some_iff.mp found).1]
    exact found
  have kept (same : c'.rounds = c.rounds) := @added [] (by rw [same, List.append_nil])
  have spawned {i : Fin n} {seq : Int} {v : String} (same : c' = (c.setServer i
      ((c.servers i).start i seq).1).spawn i seq v ((c.servers i).start i seq).2) :
      ∃ s : Nat, ∀ (r : Nat) (round : Round n), r ≠ s → c.rounds[r]? = some round →
        c'.rounds[r]? = some round := by
    rcases action : ((c.servers i).start i seq).2 with _ | view | _
    · exact kept (by rw [same, action]; rfl)
    · exact added (by rw [same, action]; rfl)
    · exact kept (by rw [same, action]; rfl)
  cases event with
  | start => exact spawned rfl
  | forwardHandled sent => exact spawned rfl
  | forwardProposes found action moved => exact added rfl
  | beginEnds found waits => exact moved rfl
  | beginPrepare found waits free seen => exact moved rfl
  | skip found skips free => exact moved rfl
  | prepareOutcome found prepares continues received => exact moved rfl
  | proposeForward found prepares asked => exact moved rfl
  | proposeAccept found prepares done chosen => exact moved rfl
  | proposeLearn found prepares chosen => exact moved rfl
  | acceptOutcome found accepts received => exact moved rfl
  | concludeEnds found accepts reported => exact moved rfl
  | concludeLearn found accepts unreported => exact moved rfl
  | finishLearn found learns => exact moved rfl
  | parentEnds found written parent forwarding => exact moved rfl
  | electionEnds found asks asked => exact kept (endElection_rounds _ _ _ _ _)
  | _ => exact kept rfl

/-- What a campaign of the next state was before the step. -/
inductive CampaignOrigin (c c' : Cluster n) (e : Nat) (campaign' : Campaign n) : Prop where
  | old (found : c.campaigns[e]? = some campaign')
  | new (missing : c.campaigns[e]? = none) (asks : campaign'.phase = .asking 0 [])
  | hears {campaign : Campaign n} {attempt : Nat} {outcomes : List (Option ElectResponse)}
      {outcome : Option ElectResponse} (found : c.campaigns[e]? = some campaign)
      (asks : campaign.phase = .asking attempt outcomes)
      (received : ∀ response, outcome = some response → ∃ i request,
        (electPeers campaign.server)[outcomes.length]? = some i ∧
        .electReply e attempt i request response ∈ c.msgs)
      (same : campaign' = { campaign with phase := .asking attempt (outcomes ++ [outcome]) })
  | unwon {campaign : Campaign n} (found : c.campaigns[e]? = some campaign)
      (target : campaign'.target = campaign.target) (server : campaign'.server = campaign.server)
      (ending : campaign'.phase = .lost ∨ ∃ attempt, campaign'.phase = .asking attempt [])
  | wins {campaign : Campaign n} {attempt : Nat} {outcomes : List (Option ElectResponse)}
      (found : c.campaigns[e]? = some campaign) (asks : campaign.phase = .asking attempt outcomes)
      (asked : outcomes.length = (electPeers campaign.server).length)
      (won : (concludeElection n (c.servers campaign.server) campaign.target
        (electTally outcomes)).2 = .won)
      (moved : c'.servers campaign.server = (concludeElection n (c.servers campaign.server)
        campaign.target (electTally outcomes)).1)
      (same : campaign' = { campaign with phase := .won })

theorem Event.campaigns {c c' : Cluster n} {label : Label n} (event : Event c label c') {e : Nat}
    {campaign' : Campaign n} (after : c'.campaigns[e]? = some campaign') :
    CampaignOrigin c c' e campaign' := by
  cases event with
  | start => exact .old (by simpa using after)
  | forwardHandled sent => exact .old (by simpa using after)
  | electOutcome found asks received =>
      rcases getElem?_set_cases after with before | ⟨rfl, rfl⟩
      · exact .old before
      · exact .hears found asks received rfl
  | @electionEnds s attempt campaign outcomes found asks asked =>
      rcases ending : (concludeElection n (c.servers campaign.server) campaign.target
        (electTally outcomes)).2 with _ | _ | _
      · simp only [Cluster.endElection, ending] at after ⊢
        rcases getElem?_set_cases after with before | ⟨rfl, rfl⟩
        · exact .old before
        · exact .wins found asks asked ending (by simp) rfl
      · simp only [Cluster.endElection, ending] at after ⊢
        rcases getElem?_set_cases after with before | ⟨rfl, rfl⟩
        · exact .old before
        · exact .unwon found rfl rfl (.inl rfl)
      · simp only [Cluster.endElection, ending] at after ⊢
        rcases getElem?_set_cases after with before | ⟨rfl, rfl⟩
        · exact .old before
        · exact .unwon found rfl rfl (.inr ⟨_, rfl⟩)
  | detectCampaign election =>
      rcases getElem?_concat_cases after with before | ⟨missing, rfl⟩
      · exact .old before
      · exact .new missing rfl
  | _ => exact .old after

/-- A campaign never disappears and keeps its server and its target. -/
theorem Event.campaigns_kept {c c' : Cluster n} {label : Label n} (event : Event c label c') {e : Nat}
    {campaign : Campaign n} (before : c.campaigns[e]? = some campaign) :
    ∃ phase, c'.campaigns[e]? = some { campaign with phase } := by
  have long : c.campaigns.length ≤ c'.campaigns.length := by
    cases event with
    | @electionEnds e attempt campaign outcomes found asks asked =>
        unfold Cluster.endElection
        dsimp only
        split <;> simp [Cluster.electOutcome]
    | _ => simp [Cluster.enterPrepare, Cluster.enterAccept, Cluster.enterLearn,
        Cluster.prepareOutcome, Cluster.electOutcome, Cluster.callBeat, Cluster.handled]
  have inside : e < c.campaigns.length := (List.getElem?_eq_some_iff.mp before).1
  have exists_ : c'.campaigns[e]? = some c'.campaigns[e] := List.getElem?_eq_getElem (by omega)
  rw [exists_]
  cases event.campaigns exists_ with
  | old found => rw [before] at found; cases found; exact ⟨_, rfl⟩
  | new missing asks => rw [before] at missing; cases missing
  | hears found asks received same => rw [before] at found; cases found; exact ⟨_, congrArg some same⟩
  | unwon found target server ending =>
      rw [before] at found
      cases found
      refine ⟨c'.campaigns[e].phase, congrArg some ?_⟩
      rw [← target, ← server]
  | wins found asks asked won moved same =>
      rw [before] at found; cases found; exact ⟨_, congrArg some same⟩

/-- What a heartbeat thread of the next state was before the step. -/
inductive BeatOrigin (c : Cluster n) (b : Nat) (beat' : Beat n) : Prop where
  | new {i : Fin n} (built : (c.servers i).heartbeatSlots i = some beat'.slots) (done : beat'.done = [])
  | old {beat : Beat n} (found : c.beats[b]? = some beat) (slots : beat'.slots = beat.slots)
      (done : beat'.done = beat.done ∨ beat'.done = beat.done ++ (c.servers beat.server).done)

theorem Event.beats {c c' : Cluster n} {label : Label n} (event : Event c label c') {b : Nat}
    {beat' : Beat n} (after : c'.beats[b]? = some beat') : BeatOrigin c b beat' := by
  have kept (before : c.beats[b]? = some beat') : BeatOrigin c b beat' := .old before rfl (.inl rfl)
  cases event with
  | start => exact kept (by simpa using after)
  | forwardHandled sent => exact kept (by simpa using after)
  | @electionEnds s attempt campaign outcomes found asks asked =>
      apply kept
      rwa [endElection_beats] at after
  | beat added =>
      rcases added with rfl | ⟨slots, built, rfl⟩
      · exact kept after
      · rcases getElem?_concat_cases after with before | ⟨_, rfl⟩
        · exact kept before
        · exact .new built rfl
  | sendBeat found waits next =>
      rcases getElem?_set_cases after with before | ⟨rfl, rfl⟩
      · exact kept before
      · exact .old found rfl (.inr rfl)
  | beatFails found =>
      rcases getElem?_set_cases after with before | ⟨rfl, rfl⟩
      · exact kept before
      · exact .old found rfl (.inl rfl)
  | beatReceived sent found =>
      rcases getElem?_set_cases after with before | ⟨rfl, rfl⟩
      · exact kept before
      · exact .old found rfl (.inl rfl)
  | _ => exact kept after

/-- The slot of a forward comes from an earlier forward, from a round, or from `Start`. -/
theorem Event.forwards {c c' : Cluster n} {label : Label n} (event : Event c label c')
    {forward' : Forward n} (after : forward' ∈ c'.forwards) :
    (∃ forward ∈ c.forwards, forward'.seq = forward.seq) ∨
    (∃ round ∈ c.rounds, forward'.seq = round.seq) ∨
    ∃ i, (c.servers i).lowestSlot ≤ forward'.seq := by
  have kept (before : forward' ∈ c.forwards) :
      (∃ forward ∈ c.forwards, forward'.seq = forward.seq) ∨
      (∃ round ∈ c.rounds, forward'.seq = round.seq) ∨
      ∃ i, (c.servers i).lowestSlot ≤ forward'.seq := .inl ⟨forward', before, rfl⟩
  have moved {f : Nat} {forward : Forward n} {forwards : List (Forward n)}
      (found : c.forwards[f]? = some forward)
      (written : ∃ phase, forwards = c.forwards.set f { forward with phase })
      (member : forward' ∈ forwards) :
      (∃ forward ∈ c.forwards, forward'.seq = forward.seq) ∨
      (∃ round ∈ c.rounds, forward'.seq = round.seq) ∨
      ∃ i, (c.servers i).lowestSlot ≤ forward'.seq := by
    obtain ⟨phase, rfl⟩ := written
    rcases List.mem_or_eq_of_mem_set member with before | rfl
    · exact kept before
    · exact .inl ⟨forward, List.mem_of_getElem? found, rfl⟩
  have spawned {i : Fin n} {seq : Int} {v : String} (appended : forward' ∈ ((c.setServer i
      ((c.servers i).start i seq).1).spawn i seq v ((c.servers i).start i seq).2).forwards) :
      (∃ forward ∈ c.forwards, forward'.seq = forward.seq) ∨
      (∃ round ∈ c.rounds, forward'.seq = round.seq) ∨
      ∃ i, (c.servers i).lowestSlot ≤ forward'.seq := by
    rcases action : ((c.servers i).start i seq).2 with _ | view | _
    · rw [action] at appended; exact kept appended
    · rw [action] at appended; exact kept appended
    · rw [action] at appended
      rcases List.mem_append.mp appended with before | new
      · exact kept before
      · rw [List.mem_singleton.mp new]
        exact .inr (.inr ⟨i, PaxosImpl.start_forward action⟩)
  cases event with
  | start => exact spawned after
  | forwardHandled sent => exact spawned after
  | proposeForward found prepares asked =>
      obtain ⟨forward, rfl, _, seq⟩ := asked
      rcases List.mem_append.mp after with before | new
      · exact kept before
      · rw [List.mem_singleton.mp new]
        exact .inr (.inl ⟨_, List.mem_of_getElem? found, seq⟩)
  | forwardProposes found action written => exact moved found written after
  | forwardCalls found written => exact moved found written after
  | forwardReturns found written => exact moved found written after
  | parentEnds found written parent forwarding => exact moved found written after
  | @electionEnds s attempt campaign outcomes found asks asked =>
      apply kept
      unfold Cluster.endElection at after
      dsimp only at after
      split at after <;> exact after
  | _ => exact kept after

end Chubby.Paxos
