/-
This file says once what a step of the cluster can do; every invariant is derived from it.
-/

import Chubby.Paxos.Cluster

namespace Chubby.Paxos

variable {n : Nat}

/-- The round passes the first tests of `StartOnNewSlot`, and its slot is above every slot that its
server knows to be accepted. -/
def Cluster.skipsPrepare (c : Cluster n) (round : Round n) : Prop :=
  round.phase = .waiting ∧ ((c.servers round.server).slotAt round.seq).status ≠ .decided ∧
    (c.servers round.server).isDead = false ∧ (c.servers round.server).highestAcceptedSeq < round.seq

instance (c : Cluster n) (round : Round n) : Decidable (c.skipsPrepare round) :=
  inferInstanceAs (Decidable (_ ∧ _ ∧ _ ∧ _))

/-- The outcomes with which a round leaves its prepare loop for its accept phase. -/
def Round.prepared (round : Round n) : Option (List (Option Promise)) :=
  match round.phase with
  | .preparing _ highestN outcomes =>
      if prepareDone n round.v highestN outcomes then
        match afterPrepare round.v round.myView (prepareLocals n round.v highestN outcomes) with
        | .accept _ => some outcomes
        | _ => none
      else none
  | _ => none

theorem Round.prepared_eq {round : Round n} {number highestN : Int} {value : String}
    {outcomes : List (Option Promise)} (prepares : round.phase = .preparing number highestN outcomes)
    (done : prepareDone n round.v highestN outcomes = true)
    (chosen : afterPrepare round.v round.myView (prepareLocals n round.v highestN outcomes) =
      .accept value) : round.prepared = some outcomes := by
  unfold Round.prepared
  rw [prepares]
  dsimp only
  rw [if_pos done, chosen]

/-- Each constructor is one branch of one step, with the guards that it passed. -/
inductive Event (c : Cluster n) : Label n → Cluster n → Prop where
  | start {i : Fin n} {seq : Int} {v : String} :
      Event c (.start i seq v)
        ((c.setServer i ((c.servers i).start i seq).1).spawn i seq v ((c.servers i).start i seq).2)
  | beginEnds {r : Nat} {round : Round n} (found : c.rounds[r]? = some round)
      (waits : round.phase = .waiting) :
      Event c (.begin r) (c.setPhase r round .finished)
  | beginPrepare {r : Nat} {round : Round n} (found : c.rounds[r]? = some round)
      (waits : round.phase = .waiting) (free : c.slotFree round.server round.seq)
      (seen : round.seq ≤ (c.servers round.server).highestAcceptedSeq) :
      Event c (.begin r) (c.enterPrepare r round)
  | skip {r : Nat} {round : Round n} (found : c.rounds[r]? = some round)
      (skips : c.skipsPrepare round) (free : c.slotFree round.server round.seq) :
      Event c (.begin r) (c.enterAccept r round round.v)
  | prepareOutcome {label : Label n} {r : Nat} {round : Round n} {number highestN : Int}
      {outcomes : List (Option Promise)} {outcome : Option Promise}
      (found : c.rounds[r]? = some round)
      (prepares : round.phase = .preparing number highestN outcomes)
      (continues : prepareDone n round.v highestN outcomes = false)
      (received : ∀ promise, outcome = some promise → ∃ i : Fin n, i.val = outcomes.length ∧
        .prepareReply r i promise ∈ c.msgs) :
      Event c label (c.prepareOutcome r round number highestN (outcomes ++ [outcome]))
  | proposeForward {r : Nat} {round : Round n} {number highestN highestNa : Int}
      {outcomes : List (Option Promise)} (found : c.rounds[r]? = some round)
      (prepares : round.phase = .preparing number highestN outcomes)
      {forwards : List (Forward n)}
      (asked : ∃ forward : Forward n, forwards = c.forwards ++ [forward] ∧
        forward.server = round.server ∧ forward.seq = round.seq) :
      Event c (.propose r)
        { (c.setServer round.server ((c.servers round.server).raiseView highestNa)).setPhase r round
            .forwarding with forwards }
  | proposeAccept {r : Nat} {round : Round n} {number highestN : Int} {value : String}
      {outcomes : List (Option Promise)} (found : c.rounds[r]? = some round)
      (prepares : round.phase = .preparing number highestN outcomes)
      (done : prepareDone n round.v highestN outcomes = true)
      (chosen : afterPrepare round.v round.myView (prepareLocals n round.v highestN outcomes) =
        .accept value) :
      Event c (.propose r) (c.enterAccept r round value)
  | proposeLearn {r : Nat} {round : Round n} {number highestN : Int} {value : String}
      {outcomes : List (Option Promise)} (found : c.rounds[r]? = some round)
      (prepares : round.phase = .preparing number highestN outcomes)
      (chosen : afterPrepare round.v round.myView (prepareLocals n round.v highestN outcomes) =
        .learn value) :
      Event c (.propose r) (c.enterLearn r round value)
  | acceptOutcome {label : Label n} {r : Nat} {round : Round n} {value : String} {i : Fin n}
      {outcomes : Fin n → Option (Option AcceptResponse)} {outcome : Option AcceptResponse}
      (found : c.rounds[r]? = some round) (accepts : round.phase = .accepting value outcomes)
      (received : ∀ response, outcome = some response → ∃ request,
        .acceptReply r i request response ∈ c.msgs) :
      Event c label
        (c.setPhase r round (.accepting value (Function.update outcomes i (some outcome))))
  | concludeEnds {r : Nat} {round : Round n} {value : String}
      {outcomes : Fin n → Option (Option AcceptResponse)} (found : c.rounds[r]? = some round)
      (accepts : round.phase = .accepting value outcomes)
      (reported : isDecidedAcc round.seq (acceptOutcomes outcomes) = true) :
      Event c (.conclude r) (c.setPhase r round .finished)
  | concludeLearn {r : Nat} {round : Round n} {value : String}
      {outcomes : Fin n → Option (Option AcceptResponse)} (found : c.rounds[r]? = some round)
      (accepts : round.phase = .accepting value outcomes)
      (unreported : isDecidedAcc round.seq (acceptOutcomes outcomes) = false) :
      Event c (.conclude r) (c.enterLearn r round value)
  | finishLearn {r : Nat} {round : Round n} {value : String} (found : c.rounds[r]? = some round)
      (learns : round.phase = .learning value) :
      Event c (.finishLearn r) (c.setPhase r round .finished)
  | forwardProposes {f : Nat} {forward : Forward n} {view : Int} {forwards : List (Forward n)}
      (found : c.forwards[f]? = some forward)
      (action : ((c.servers forward.server).startOnForward forward.server forward.seq).2 =
        .newSlot view)
      (moved : ∃ phase, forwards = c.forwards.set f { forward with phase }) :
      Event c (.forward f)
        { c.setServer forward.server
            ((c.servers forward.server).startOnForward forward.server forward.seq).1 with
          forwards
          rounds := c.rounds ++
            [(⟨forward.server, forward.seq, forward.v, view, .waiting⟩ : Round n)] }
  | forwardCalls {f : Nat} {forward : Forward n} {forwards : List (Forward n)} {leader : Fin n}
      (found : c.forwards[f]? = some forward)
      (moved : ∃ phase, forwards = c.forwards.set f { forward with phase }) :
      Event c (.forward f)
        ({ c.setServer forward.server
            ((c.servers forward.server).startOnForward forward.server forward.seq).1 with
          forwards }.send [.forwardRequest f leader forward.seq forward.v])
  | forwardReturns {f : Nat} {forward : Forward n} {forwards : List (Forward n)}
      (found : c.forwards[f]? = some forward)
      (moved : ∃ phase, forwards = c.forwards.set f { forward with phase }) :
      Event c (.forwardReturns f) { c with forwards }
  | parentEnds {f r : Nat} {forward : Forward n} {forwards : List (Forward n)} {round : Round n}
      (found : c.forwards[f]? = some forward)
      (moved : ∃ phase, forwards = c.forwards.set f { forward with phase })
      (parent : c.rounds[r]? = some round) (forwarding : round.phase = .forwarding) :
      Event c (.forwardReturns f) { c.setPhase r round .finished with forwards }
  | electOutcome {label : Label n} {e attempt : Nat} {campaign : Campaign n}
      {outcomes : List (Option ElectResponse)} {outcome : Option ElectResponse}
      (found : c.campaigns[e]? = some campaign)
      (asks : campaign.phase = .asking attempt outcomes)
      (received : ∀ response, outcome = some response → ∃ i request,
        (electPeers campaign.server)[outcomes.length]? = some i ∧
        .electReply e attempt i request response ∈ c.msgs) :
      Event c label (c.electOutcome e campaign attempt (outcomes ++ [outcome]))
  | electionEnds {e attempt : Nat} {campaign : Campaign n} {outcomes : List (Option ElectResponse)}
      (found : c.campaigns[e]? = some campaign)
      (asks : campaign.phase = .asking attempt outcomes)
      (asked : outcomes.length = (electPeers campaign.server).length) :
      Event c (.concludeElection e) (c.endElection e campaign attempt
        (concludeElection n (c.servers campaign.server) campaign.target (electTally outcomes)))
  | detect {i : Fin n} {timers : Fin n → Nat} :
      Event c (.detect i) { c.setServer i ((c.servers i).detectLeaderFailure i).1 with timers }
  | detectCampaign {i : Fin n} {timers : Fin n → Nat} {view offset : Int}
      (election : ((c.servers i).detectLeaderFailure i).2.2 = some (view, offset)) :
      Event c (.detect i)
        ({ c.setServer i ((c.servers i).detectLeaderFailure i).1 with
          timers
          campaigns := c.campaigns ++ [(⟨i, view + offset, .asking 0 []⟩ : Campaign n)] }.send
            (Cluster.electRequests c.campaigns.length ⟨i, view + offset, .asking 0 []⟩ 0 0))
  | quietEnds {i : Fin n} {timers : Fin n → Nat} :
      Event c (.quietEnds i) { c.setServer i (c.servers i).quietPeriodEnds with timers }
  | beat {i : Fin n} {beats : List (Beat n)}
      (added : beats = c.beats ∨ ∃ slots, (c.servers i).heartbeatSlots i = some slots ∧
        beats = c.beats ++ [(⟨i, (c.servers i).view, slots, [], 0, false⟩ : Beat n)]) :
      Event c (.beat i) { c with beats }
  | sendBeat {b : Nat} {beat : Beat n} {peer : Fin n} (found : c.beats[b]? = some beat)
      (waits : beat.waiting = false) (next : beat.next = peer.val) :
      Event c (.sendBeat b) (c.callBeat b beat peer)
  | beatFails {b : Nat} {beat : Beat n} (found : c.beats[b]? = some beat) :
      Event c (.beatFails b) (c.setBeat b { beat with waiting := false, next := beat.next + 1 })
  | prepareHandled {k r : Nat} {i : Fin n} {request : PrepareRequest}
      (sent : c.msgs[k]? = some (.prepareRequest r i request)) :
      Event c (.deliver k) (c.handled i ((c.servers i).prepare i request) fun response =>
        .prepareReply r i ⟨response, (lastVote c.msgs i request.seq).map Prod.fst⟩)
  | acceptHandled {k r : Nat} {i : Fin n} {request : AcceptRequest}
      (sent : c.msgs[k]? = some (.acceptRequest r i request)) :
      Event c (.deliver k)
        (c.handled i ((c.servers i).accept i request) (.acceptReply r i request))
  | learnHandled {k r : Nat} {i : Fin n} {request : DecideRequest}
      (sent : c.msgs[k]? = some (.learnRequest r i request)) :
      Event c (.deliver k) (c.setServer i ((c.servers i).learn i request true).1)
  | electHandled {k e attempt : Nat} {i : Fin n} {request : ElectRequest}
      (sent : c.msgs[k]? = some (.electRequest e attempt i request)) :
      Event c (.deliver k) ((c.setServer i ((c.servers i).elect request).1).send
        [.electReply e attempt i request ((c.servers i).elect request).2])
  | forwardHandled {k f : Nat} {i : Fin n} {seq : Int} {v : String}
      (sent : c.msgs[k]? = some (.forwardRequest f i seq v)) :
      Event c (.deliver k)
        ((c.setServer i ((c.servers i).start i seq).1).spawn i seq v ((c.servers i).start i seq).2)
  | heartbeatHandled {k b : Nat} {i : Fin n} {request : HeartbeatRequest}
      (sent : c.msgs[k]? = some (.heartbeatRequest b i request)) :
      Event c (.deliver k)
        (c.handled i ((c.servers i).heartbeat i request) (.heartbeatReply b i))
  | beatReceived {k b : Nat} {beat : Beat n} {i : Fin n} {response : HeartbeatResponse}
      (sent : c.msgs[k]? = some (.heartbeatReply b i response)) (found : c.beats[b]? = some beat) :
      Event c (.receive k) ((c.setBeat b { beat with waiting := false, next := beat.next + 1 }).setServer
        beat.server (if i = beat.server then c.servers beat.server else
          (c.servers beat.server).copyDecided response.slots))

namespace Cluster

theorem begin_event {c c' : Cluster n} {r : Nat} (taken : c.begin r = some c') :
    Event c (.begin r) c' := by
  unfold begin at taken
  split at taken
  · cases taken
  next round found =>
    dsimp only at taken
    split at taken
    next waits =>
      split at taken
      next free =>
        split at taken
        · cases taken; exact .beginEnds found waits
        next running =>
          split at taken
          · split at taken
            next seen => cases taken; exact .beginPrepare found waits free seen
            next unseen =>
              cases taken
              obtain ⟨undecided, alive⟩ := not_or.mp running
              exact .skip found ⟨waits, undecided, by simpa using alive, Int.not_le.mp unseen⟩ free
          · cases taken
      · cases taken
    · cases taken

theorem prepareFails_event {c c' : Cluster n} {r : Nat} (taken : c.prepareFails r = some c') :
    Event c (.prepareFails r) c' := by
  unfold prepareFails at taken
  split at taken
  · cases taken
  next round found =>
    split at taken
    next number highestN outcomes prepares =>
      split at taken
      · cases taken
      next continues =>
        cases taken
        exact .prepareOutcome found prepares (by simpa using continues) (by simp)
    · cases taken

theorem propose_event {c c' : Cluster n} {r : Nat} (taken : c.propose r = some c') :
    Event c (.propose r) c' := by
  unfold propose at taken
  split at taken
  · cases taken
  next round found =>
    split at taken
    next number highestN outcomes prepares =>
      split at taken
      next done =>
        split at taken
        next highestNa chosen =>
          split at taken
          · cases taken
            exact .proposeForward found prepares ⟨_, rfl, rfl, rfl⟩
          · cases taken
        next value chosen => cases taken; exact .proposeAccept found prepares done chosen
        next value chosen =>
          split at taken
          · cases taken; exact .proposeLearn found prepares chosen
          · cases taken
      · cases taken
    · cases taken

theorem acceptOutcome_event {c c' : Cluster n} {label : Label n} {r : Nat} {i : Fin n}
    {outcome : Option AcceptResponse} (taken : c.acceptOutcome r i outcome = some c')
    (received : ∀ response, outcome = some response → ∃ request,
      .acceptReply r i request response ∈ c.msgs) : Event c label c' := by
  unfold acceptOutcome at taken
  split at taken
  · cases taken
  next round found =>
    split at taken
    next value outcomes accepts =>
      split at taken
      · cases taken
      · cases taken; exact .acceptOutcome found accepts received
    · cases taken

theorem conclude_event {c c' : Cluster n} {r : Nat} (taken : c.conclude r = some c') :
    Event c (.conclude r) c' := by
  unfold conclude at taken
  split at taken
  · cases taken
  next round found =>
    split at taken
    next value outcomes accepts =>
      split at taken
      next joined =>
        unfold afterAccept at taken
        by_cases reported : isDecidedAcc round.seq (acceptOutcomes outcomes) = true
        · rw [if_pos reported] at taken
          cases taken
          exact .concludeEnds found accepts reported
        · rw [if_neg reported] at taken
          dsimp only at taken
          split at taken
          · cases taken; exact .concludeLearn found accepts (by simpa using reported)
          · cases taken
      · cases taken
    · cases taken

theorem forward_event {c c' : Cluster n} {f : Nat} (taken : c.forward f = some c') :
    Event c (.forward f) c' := by
  unfold forward at taken
  split at taken
  · cases taken
  next forward found =>
    split at taken
    · dsimp only at taken
      split at taken
      next view action =>
        cases taken
        exact .forwardProposes found action ⟨_, rfl⟩
      · split at taken
        · cases taken
        next leader _ =>
          cases taken
          exact .forwardCalls found ⟨_, rfl⟩
    · cases taken

theorem forwardReturns_event {c c' : Cluster n} {f : Nat} (taken : c.forwardReturns f = some c') :
    Event c (.forwardReturns f) c' := by
  unfold forwardReturns at taken
  split at taken
  · cases taken
  next forward found =>
    split at taken
    · dsimp only at taken
      split at taken
      · cases taken; exact .forwardReturns found ⟨_, rfl⟩
      next r _ =>
        cases taken
        unfold endParent
        split
        · exact .forwardReturns found ⟨_, rfl⟩
        next round parent =>
          split
          next forwarding => exact .parentEnds found ⟨_, rfl⟩ parent forwarding
          · exact .forwardReturns found ⟨_, rfl⟩
    · cases taken

theorem electFails_event {c c' : Cluster n} {e : Nat} (taken : c.electFails e = some c') :
    Event c (.electFails e) c' := by
  unfold electFails at taken
  split at taken
  · cases taken
  next campaign found =>
    split at taken
    next attempt outcomes asks =>
      split at taken
      · cases taken; exact .electOutcome found asks (by simp)
      · cases taken
    · cases taken

theorem concludeElection_event {c c' : Cluster n} {e : Nat}
    (taken : c.concludeElection e = some c') : Event c (.concludeElection e) c' := by
  unfold concludeElection at taken
  split at taken
  · cases taken
  next campaign found =>
    split at taken
    next attempt outcomes asks =>
      split at taken
      next asked => cases taken; exact .electionEnds found asks asked.1
      · cases taken
    · cases taken

theorem detect_event {c c' : Cluster n} {i : Fin n} (taken : c.detect i = some c') :
    Event c (.detect i) c' := by
  unfold detect at taken
  split at taken
  · dsimp only at taken
    split at taken
    · cases taken
      split
      · exact .detect
      · exact @Event.detect n c i c.timers
    next view offset election =>
      cases taken
      split
      · exact .detectCampaign election
      · exact @Event.detectCampaign n c i c.timers view offset election
  · cases taken

theorem beat_event {c c' : Cluster n} {i : Fin n} (taken : c.beat i = some c') :
    Event c (.beat i) c' := by
  unfold beat at taken
  split at taken
  · split at taken
    · cases taken; exact @Event.beat n c i c.beats (.inl rfl)
    next slots built => cases taken; exact .beat (.inr ⟨slots, built, rfl⟩)
  · cases taken

theorem sendBeat_event {c c' : Cluster n} {b : Nat} (taken : c.sendBeat b = some c') :
    Event c (.sendBeat b) c' := by
  unfold sendBeat at taken
  split at taken
  · cases taken
  next beat found =>
    split at taken
    · split at taken
      next ready => cases taken; exact .sendBeat found ready.1 rfl
      · cases taken
    · cases taken

theorem deliver_event {c c' : Cluster n} {k : Nat} (taken : c.deliver k = some c') :
    Event c (.deliver k) c' := by
  unfold deliver at taken
  split at taken
  next r i request sent => split at taken <;> cases taken; exact .prepareHandled sent
  next r i request sent => split at taken <;> cases taken; exact .acceptHandled sent
  next r i request sent => split at taken <;> cases taken; exact .learnHandled sent
  next e attempt i request sent => split at taken <;> cases taken; exact .electHandled sent
  next f i seq v sent =>
    unfold start at taken
    split at taken <;> cases taken
    exact .forwardHandled sent
  next b i request sent => split at taken <;> cases taken; exact .heartbeatHandled sent
  · cases taken

theorem receive_event {c c' : Cluster n} {k : Nat} (taken : c.receive k = some c') :
    Event c (.receive k) c' := by
  unfold receive at taken
  split at taken
  next r i promise sent =>
    split at taken
    · cases taken
    next round found =>
      split at taken
      next number highestN outcomes prepares =>
        split at taken
        next current =>
          cases taken
          refine .prepareOutcome found prepares (by simpa using current.2) ?_
          rintro _ ⟨⟩
          exact ⟨i, current.1.symm, List.mem_of_getElem? sent⟩
        · cases taken
      · cases taken
  next r i request response sent =>
    apply acceptOutcome_event taken
    rintro _ ⟨⟩
    exact ⟨request, List.mem_of_getElem? sent⟩
  next e attempt i request response sent =>
    split at taken
    · cases taken
    next campaign found =>
      split at taken
      next current outcomes asks =>
        split at taken
        next matching =>
          cases taken
          obtain ⟨rfl, peer⟩ := matching
          refine .electOutcome found asks ?_
          rintro _ ⟨⟩
          exact ⟨i, request, peer, List.mem_of_getElem? sent⟩
        · cases taken
      · cases taken
  next b i response sent =>
    split at taken
    · cases taken
    next beat found =>
      split at taken
      · cases taken; exact .beatReceived sent found
      · cases taken
  · cases taken

/-- Every step of the cluster is one of the listed events. -/
theorem step_event {c c' : Cluster n} {label : Label n} (taken : c.step label = some c') :
    Event c label c' := by
  cases label with
  | start i seq v =>
      change c.start i seq v = some c' at taken
      unfold start at taken
      split at taken <;> cases taken
      exact .start
  | begin r => exact begin_event taken
  | propose r => exact propose_event taken
  | conclude r => exact conclude_event taken
  | finishLearn r =>
      change c.finishLearn r = some c' at taken
      unfold finishLearn at taken
      split at taken
      · cases taken
      next round found =>
        split at taken
        next value learns => cases taken; exact .finishLearn found learns
        · cases taken
  | forward f => exact forward_event taken
  | forwardReturns f => exact forwardReturns_event taken
  | deliver k => exact deliver_event taken
  | receive k => exact receive_event taken
  | prepareFails r => exact prepareFails_event taken
  | acceptFails r i => exact acceptOutcome_event taken (by simp)
  | electFails e => exact electFails_event taken
  | beatFails b =>
      change c.beatFails b = some c' at taken
      unfold beatFails at taken
      split at taken
      · cases taken
      next beat found => split at taken <;> cases taken; exact .beatFails found
  | detect i => exact detect_event taken
  | quietEnds i =>
      change c.quietEnds i = some c' at taken
      unfold quietEnds at taken
      split at taken <;> cases taken
      exact .quietEnds
  | concludeElection e => exact concludeElection_event taken
  | beat i => exact beat_event taken
  | sendBeat b => exact sendBeat_event taken

end Cluster

end Chubby.Paxos
