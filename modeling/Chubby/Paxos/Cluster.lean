/-
This file composes the servers, their threads and the messages between them into one system.
-/

import Chubby.Library.Runs
import Chubby.Paxos.Election
import Chubby.Paxos.Round

namespace Chubby.Paxos

/-- A prepare reply together with the view of the server's last accept for the slot, which is a
history variable that no handler reads. -/
structure Promise where
  response : PrepareResponse
  lastVote : Option Int
  deriving DecidableEq, Repr

/-- The mutex `slot->mu` is held in every phase between `waiting` and `finished`. -/
inductive RoundPhase (n : Nat) where
  | waiting
  | preparing (number highestN : Int) (outcomes : List (Option Promise))
  | accepting (value : String) (outcomes : Fin n → Option (Option AcceptResponse))
  | learning (value : String)
  | forwarding
  | finished

instance {n : Nat} (phase : RoundPhase n) : Decidable (phase = .waiting) :=
  match phase with
  | .waiting => isTrue rfl
  | .preparing _ _ _ | .accepting _ _ | .learning _ | .forwarding | .finished => isFalse (by simp)

/-- One thread that runs `StartOnNewSlot(seq, v, slot, my_view)` on a server. -/
structure Round (n : Nat) where
  server : Fin n
  seq : Int
  v : String
  myView : Int
  phase : RoundPhase n

/-- The mutex `mu` is held while the leader is called or the proposal runs in the same thread. -/
inductive ForwardPhase where
  | waiting
  | calling
  | proposing (round : Nat)
  | finished
  deriving DecidableEq, Repr

/-- One execution of `StartOnForward`; a round that changed its view is its parent. -/
structure Forward (n : Nat) where
  server : Fin n
  seq : Int
  v : String
  parent : Option Nat
  phase : ForwardPhase
  deriving DecidableEq, Repr

inductive CampaignPhase where
  | asking (attempt : Nat) (outcomes : List (Option ElectResponse))
  | won
  | lost
  deriving DecidableEq, Repr

/-- One `Election` thread; the target is `my_view + offset`. -/
structure Campaign (n : Nat) where
  server : Fin n
  target : Int
  phase : CampaignPhase
  deriving DecidableEq, Repr

/-- One execution of `SendHeartbeats`; the request object keeps its done entries between peers. -/
structure Beat (n : Nat) where
  server : Fin n
  view : Int
  slots : Int → Option PaxosSlot
  done : List Int
  next : Nat
  waiting : Bool

/-- Each message names the thread that waits for it and the peer that handles the call. -/
inductive Msg (n : Nat) where
  | prepareRequest (round : Nat) (peer : Fin n) (request : PrepareRequest)
  | prepareReply (round : Nat) (peer : Fin n) (promise : Promise)
  | acceptRequest (round : Nat) (peer : Fin n) (request : AcceptRequest)
  | acceptReply (round : Nat) (peer : Fin n) (request : AcceptRequest) (response : AcceptResponse)
  | learnRequest (round : Nat) (peer : Fin n) (request : DecideRequest)
  | electRequest (campaign attempt : Nat) (peer : Fin n) (request : ElectRequest)
  | electReply (campaign attempt : Nat) (peer : Fin n) (request : ElectRequest)
      (response : ElectResponse)
  | forwardRequest (forward : Nat) (peer : Fin n) (seq : Int) (v : String)
  | heartbeatRequest (beat : Nat) (peer : Fin n) (request : HeartbeatRequest)
  | heartbeatReply (beat : Nat) (peer : Fin n) (response : HeartbeatResponse)

/-- The list of messages only grows: a message may be delivered late, never, or again, so every
run over the gRPC transport is among the runs of the model. -/
structure Cluster (n : Nat) where
  servers : Fin n → PaxosImpl
  rounds : List (Round n)
  forwards : List (Forward n)
  campaigns : List (Campaign n)
  beats : List (Beat n)
  timers : Fin n → Nat
  msgs : List (Msg n)

/-- Every choice of the environment is one label. -/
inductive Label (n : Nat) where
  | start (server : Fin n) (seq : Int) (v : String)
  | begin (round : Nat)
  | propose (round : Nat)
  | conclude (round : Nat)
  | finishLearn (round : Nat)
  | forward (forward : Nat)
  | forwardReturns (forward : Nat)
  | deliver (message : Nat)
  | receive (message : Nat)
  | prepareFails (round : Nat)
  | acceptFails (round : Nat) (peer : Fin n)
  | electFails (campaign : Nat)
  | beatFails (beat : Nat)
  | detect (server : Fin n)
  | quietEnds (server : Fin n)
  | concludeElection (campaign : Nat)
  | beat (server : Fin n)
  | sendBeat (beat : Nat)
  deriving DecidableEq, Repr

/-- The last accept that the server answered with OK for the slot, in the order of the messages. -/
def lastVote {n : Nat} (msgs : List (Msg n)) (peer : Fin n) (seq : Int) : Option (Int × String) :=
  msgs.foldl (fun last message =>
    match message with
    | .acceptReply _ voter request response =>
        if voter = peer ∧ request.seq = seq ∧ response.status = .ok then
          some (request.view, request.value) else last
    | _ => last) none

def Round.holdsSlot {n : Nat} (round : Round n) : Bool :=
  match round.phase with
  | .waiting | .finished => false
  | _ => true

def Round.ended {n : Nat} (round : Round n) : Bool :=
  match round.phase with
  | .finished => true
  | _ => false

def Forward.holdsMu {n : Nat} (forward : Forward n) : Bool :=
  match forward.phase with
  | .calling | .proposing _ => true
  | _ => false

/-- The locals of the prepare loop are a function of the outcomes it has processed. -/
def prepareLocals (groupSize : Nat) (v : String) (highestN : Int) (outcomes : List (Option Promise)) :
    PrepareLocals :=
  prepareLoop id groupSize (.initial v highestN) (outcomes.map (Option.map Promise.response))

/-- The loop is left at a break or after the last peer. -/
def prepareDone (n : Nat) (v : String) (highestN : Int) (outcomes : List (Option Promise)) : Bool :=
  (prepareLocals n v highestN outcomes).stopped || outcomes.length = n

def acceptOutcomes {n : Nat} (outcomes : Fin n → Option (Option AcceptResponse)) :
    List (Option AcceptResponse) :=
  (List.finRange n).map fun peer => (outcomes peer).join

namespace Cluster

variable {n : Nat}

def initial (n : Nat) : Cluster n where
  servers := fun _ => .initial n
  rounds := []
  forwards := []
  campaigns := []
  beats := []
  timers := fun _ => 0
  msgs := []

def setServer (c : Cluster n) (i : Fin n) (server : PaxosImpl) : Cluster n :=
  { c with servers := Function.update c.servers i server }

def send (c : Cluster n) (messages : List (Msg n)) : Cluster n :=
  { c with msgs := c.msgs ++ messages }

def setPhase (c : Cluster n) (r : Nat) (round : Round n) (phase : RoundPhase n) : Cluster n :=
  { c with rounds := c.rounds.set r { round with phase } }

def muFree (c : Cluster n) (i : Fin n) : Bool :=
  c.forwards.all fun forward => forward.server ≠ i || !forward.holdsMu

def slotFree (c : Cluster n) (i : Fin n) (seq : Int) : Bool :=
  c.rounds.all fun round => round.server ≠ i || round.seq ≠ seq || !round.holdsSlot

/-- A continuation of `Start` or `StartOnForward` spawns the thread that runs it. -/
def spawn (c : Cluster n) (i : Fin n) (seq : Int) (v : String) : StartAction → Cluster n
  | .stop => c
  | .newSlot view => { c with rounds := c.rounds ++ [⟨i, seq, v, view, .waiting⟩] }
  | .forward => { c with forwards := c.forwards ++ [⟨i, seq, v, none, .waiting⟩] }

/-- This is `Start`, called by the lock service, by a client or by the `ForwardLeader` handler. -/
def start (c : Cluster n) (i : Fin n) (seq : Int) (v : String) : Option (Cluster n) :=
  if c.muFree i then
    let (server, action) := (c.servers i).start i seq
    some ((c.setServer i server).spawn i seq v action)
  else none

def prepareRequests (r : Nat) (round : Round n) (number : Int) (called : Nat) : List (Msg n) :=
  if inside : called < n then [.prepareRequest r ⟨called, inside⟩ ⟨round.seq, number⟩] else []

def acceptRequests (r : Nat) (round : Round n) (value : String) : List (Msg n) :=
  (List.finRange n).map fun peer => .acceptRequest r peer ⟨round.seq, round.myView, value⟩

def learnRequests (r : Nat) (round : Round n) (value : String) : List (Msg n) :=
  (List.finRange n).map fun peer => .learnRequest r peer ⟨round.seq, value⟩

/-- The round enters its accept phase and calls every server. -/
def enterAccept (c : Cluster n) (r : Nat) (round : Round n) (value : String) : Cluster n :=
  (c.setPhase r round (.accepting value fun _ => none)).send (acceptRequests r round value)

def enterLearn (c : Cluster n) (r : Nat) (round : Round n) (value : String) : Cluster n :=
  (c.setPhase r round (.learning value)).send (learnRequests r round value)

/-- The round raises the slot's number and calls the first peer. -/
def enterPrepare (c : Cluster n) (r : Nat) (round : Round n) : Cluster n :=
  let server := c.servers round.server
  let slot := server.slotAt round.seq
  let number := nextNumber n slot
  let raised := c.setServer round.server (server.setSlot round.seq { slot with n := number })
  (raised.setPhase r round (.preparing number slot.highestN [])).send
    (prepareRequests r round number 0)

/-- The round takes the slot's mutex, returns when the slot is decided, and decides under `mu` whether to
skip the prepare phase. -/
def begin (c : Cluster n) (r : Nat) : Option (Cluster n) :=
  match c.rounds[r]? with
  | none => none
  | some round =>
      let server := c.servers round.server
      match round.phase with
      | .waiting =>
          if c.slotFree round.server round.seq then
            if (server.slotAt round.seq).status = .decided ∨ server.isDead then
              some (c.setPhase r round .finished)
            else if c.muFree round.server then
              if round.seq ≤ server.highestAcceptedSeq then some (c.enterPrepare r round)
              else some (c.enterAccept r round round.v)
            else none
          else none
      | _ => none

/-- One more outcome of the prepare loop calls the next peer unless the loop ends. -/
def prepareOutcome (c : Cluster n) (r : Nat) (round : Round n) (number highestN : Int)
    (outcomes : List (Option Promise)) : Cluster n :=
  let server := c.servers round.server
  let locals := prepareLocals n round.v highestN outcomes
  let raised := c.setServer round.server
    (server.setSlot round.seq { server.slotAt round.seq with highestN := locals.slotHighestN })
  (raised.setPhase r round (.preparing number highestN outcomes)).send
    (if locals.stopped then [] else prepareRequests r round number outcomes.length)

def prepareFails (c : Cluster n) (r : Nat) : Option (Cluster n) :=
  match c.rounds[r]? with
  | none => none
  | some round =>
      match round.phase with
      | .preparing number highestN outcomes =>
          if prepareDone n round.v highestN outcomes then none
          else some (c.prepareOutcome r round number highestN (outcomes ++ [none]))
      | _ => none

/-- The round leaves its prepare loop. When it adopts a larger view it runs `StartOnForward` and
then releases a mutex it no longer owns, which ends the process; a server that takes no further
step covers that. -/
def propose (c : Cluster n) (r : Nat) : Option (Cluster n) :=
  match c.rounds[r]? with
  | none => none
  | some round =>
      match round.phase with
      | .preparing _ highestN outcomes =>
          if prepareDone n round.v highestN outcomes then
            match afterPrepare round.v round.myView (prepareLocals n round.v highestN outcomes) with
            | .forward highestNa =>
                if c.muFree round.server then
                  let moved := (c.servers round.server).raiseView highestNa
                  let forward : Forward n := ⟨round.server, round.seq, round.v, some r, .waiting⟩
                  let next := (c.setServer round.server moved).setPhase r round .forwarding
                  some { next with forwards := next.forwards ++ [forward] }
                else none
            | .accept value => some (c.enterAccept r round value)
            | .learn value => if c.muFree round.server then some (c.enterLearn r round value) else none
          else none
      | _ => none

def acceptOutcome (c : Cluster n) (r : Nat) (peer : Fin n) (outcome : Option AcceptResponse) :
    Option (Cluster n) :=
  match c.rounds[r]? with
  | none => none
  | some round =>
      match round.phase with
      | .accepting value outcomes =>
          if (outcomes peer).isSome then none
          else some (c.setPhase r round
            (.accepting value (Function.update outcomes peer (some outcome))))
      | _ => none

/-- All accept threads are joined before the round goes on. -/
def conclude (c : Cluster n) (r : Nat) : Option (Cluster n) :=
  match c.rounds[r]? with
  | none => none
  | some round =>
      match round.phase with
      | .accepting value outcomes =>
          if ∀ peer, (outcomes peer).isSome then
            match afterAccept round.seq value (acceptOutcomes outcomes) with
            | none => some (c.setPhase r round .finished)
            | some learned =>
                if c.muFree round.server then some (c.enterLearn r round learned) else none
          else none
      | _ => none

/-- A Learn call returns or fails at any time; its result is not used. -/
def finishLearn (c : Cluster n) (r : Nat) : Option (Cluster n) :=
  match c.rounds[r]? with
  | none => none
  | some round =>
      match round.phase with
      | .learning _ => some (c.setPhase r round .finished)
      | _ => none

def setForward (c : Cluster n) (f : Nat) (forward : Forward n) (phase : ForwardPhase) : Cluster n :=
  { c with forwards := c.forwards.set f { forward with phase } }

/-- The locked section of `StartOnForward` keeps `mu` while it calls or proposes. -/
def forward (c : Cluster n) (f : Nat) : Option (Cluster n) :=
  match c.forwards[f]? with
  | none => none
  | some forward =>
      if forward.phase = .waiting ∧ c.muFree forward.server then
        let (server, action) := (c.servers forward.server).startOnForward forward.server forward.seq
        let next := c.setServer forward.server server
        match action with
        | .newSlot view =>
            let round : Round n := ⟨forward.server, forward.seq, forward.v, view, .waiting⟩
            let spawned := { next with rounds := next.rounds ++ [round] }
            some (spawned.setForward f forward (.proposing next.rounds.length))
        | _ =>
            match leaderOf n server.view with
            | none => none
            | some leader =>
                some ((next.setForward f forward .calling).send
                  [.forwardRequest f leader forward.seq forward.v])
      else none

/-- A round that waits for its `StartOnForward` ends with it. -/
def endParent (c : Cluster n) (r : Nat) : Cluster n :=
  match c.rounds[r]? with
  | none => c
  | some round =>
      match round.phase with
      | .forwarding => c.setPhase r round .finished
      | _ => c

/-- The call to the leader may return at any time, and an own proposal when its round is over. -/
def mayReturn (c : Cluster n) (forward : Forward n) : Bool :=
  match forward.phase with
  | .calling => true
  | .proposing r => c.rounds[r]?.any Round.ended
  | .waiting | .finished => false

def forwardReturns (c : Cluster n) (f : Nat) : Option (Cluster n) :=
  match c.forwards[f]? with
  | none => none
  | some forward =>
      if c.mayReturn forward then
        let next := c.setForward f forward .finished
        some (match forward.parent with
          | none => next
          | some r => next.endParent r)
      else none

/-- The first call of every pass and the call after every outcome go to the next peer. -/
def electRequests (e : Nat) (campaign : Campaign n) (attempt called : Nat) : List (Msg n) :=
  ((electPeers campaign.server)[called]?).toList.map fun peer =>
    .electRequest e attempt peer ⟨campaign.target⟩

def setCampaign (c : Cluster n) (e : Nat) (campaign : Campaign n) (phase : CampaignPhase) :
    Cluster n :=
  { c with campaigns := c.campaigns.set e { campaign with phase } }

def electOutcome (c : Cluster n) (e : Nat) (campaign : Campaign n) (attempt : Nat)
    (outcomes : List (Option ElectResponse)) : Cluster n :=
  (c.setCampaign e campaign (.asking attempt outcomes)).send
    (electRequests e campaign attempt outcomes.length)

def electFails (c : Cluster n) (e : Nat) : Option (Cluster n) :=
  match c.campaigns[e]? with
  | none => none
  | some campaign =>
      match campaign.phase with
      | .asking attempt outcomes =>
          if outcomes.length < (electPeers campaign.server).length then
            some (c.electOutcome e campaign attempt (outcomes ++ [none]))
          else none
      | _ => none

/-- The counted votes end the campaign or start its next pass. -/
def endElection (c : Cluster n) (e : Nat) (campaign : Campaign n) (attempt : Nat)
    (result : PaxosImpl × ElectionEnd) : Cluster n :=
  let next := c.setServer campaign.server result.1
  match result.2 with
  | .won => next.setCampaign e campaign .won
  | .lost => next.setCampaign e campaign .lost
  | .retry => next.electOutcome e campaign (attempt + 1) []

/-- The campaign counts its votes under `mu` after it has asked every other server. -/
def concludeElection (c : Cluster n) (e : Nat) : Option (Cluster n) :=
  match c.campaigns[e]? with
  | none => none
  | some campaign =>
      match campaign.phase with
      | .asking attempt outcomes =>
          if outcomes.length = (electPeers campaign.server).length ∧ c.muFree campaign.server then
            some (c.endElection e campaign attempt
              (Paxos.concludeElection n (c.servers campaign.server) campaign.target
                (electTally outcomes)))
          else none
      | _ => none

/-- A detection starts its timer and, unless the server leads the view, a campaign. -/
def detect (c : Cluster n) (i : Fin n) : Option (Cluster n) :=
  if c.muFree i then
    let (server, fired, election) := (c.servers i).detectLeaderFailure i
    let next := c.setServer i server
    let timed := if fired then
      { next with timers := Function.update next.timers i (next.timers i + 1) } else next
    match election with
    | none => some timed
    | some (view, offset) =>
        let campaign : Campaign n := ⟨i, view + offset, .asking 0 []⟩
        let spawned := { timed with campaigns := timed.campaigns ++ [campaign] }
        some (spawned.send (electRequests timed.campaigns.length campaign 0 0))
  else none

def quietEnds (c : Cluster n) (i : Fin n) : Option (Cluster n) :=
  if 0 < c.timers i ∧ c.muFree i then
    let next := { c with timers := Function.update c.timers i (c.timers i - 1) }
    some (next.setServer i (c.servers i).quietPeriodEnds)
  else none

/-- The first locked section of `SendHeartbeats` builds the request. -/
def beat (c : Cluster n) (i : Fin n) : Option (Cluster n) :=
  if c.muFree i then
    match (c.servers i).heartbeatSlots i with
    | none => some c
    | some slots =>
        some { c with beats := c.beats ++ [⟨i, (c.servers i).view, slots, [], 0, false⟩] }
  else none

def setBeat (c : Cluster n) (b : Nat) (beat : Beat n) : Cluster n :=
  { c with beats := c.beats.set b beat }

/-- Each send adds the whole done vector to the request once more. -/
def callBeat (c : Cluster n) (b : Nat) (beat : Beat n) (peer : Fin n) : Cluster n :=
  let done := beat.done ++ (c.servers beat.server).done
  (c.setBeat b { beat with done, waiting := true }).send
    [.heartbeatRequest b peer ⟨beat.server.val, beat.view, done, beat.slots⟩]

def sendBeat (c : Cluster n) (b : Nat) : Option (Cluster n) :=
  match c.beats[b]? with
  | none => none
  | some beat =>
      if inside : beat.next < n then
        if beat.waiting = false ∧ c.muFree beat.server then
          some (c.callBeat b beat ⟨beat.next, inside⟩)
        else none
      else none

def beatFails (c : Cluster n) (b : Nat) : Option (Cluster n) :=
  match c.beats[b]? with
  | none => none
  | some beat =>
      if beat.waiting then some (c.setBeat b { beat with waiting := false, next := beat.next + 1 })
      else none

/-- The handler runs at the peer and its answer is sent only when its status is OK. -/
def handled {α : Type} (c : Cluster n) (i : Fin n) (result : PaxosImpl × Except HandlerError α)
    (reply : α → Msg n) : Cluster n :=
  (c.setServer i result.1).send (match result.2 with
    | .error _ => []
    | .ok response => [reply response])

/-- The handler runs to its end in one step, `Prepare`, `Accept` and `Learn` with all their locked
sections. -/
def deliver (c : Cluster n) (k : Nat) : Option (Cluster n) :=
  match c.msgs[k]? with
  | some (.prepareRequest r i request) =>
      if c.muFree i then
        some (c.handled i ((c.servers i).prepare i request) fun response =>
          .prepareReply r i ⟨response, (lastVote c.msgs i request.seq).map Prod.fst⟩)
      else none
  | some (.acceptRequest r i request) =>
      if c.muFree i then
        some (c.handled i ((c.servers i).accept i request) (.acceptReply r i request))
      else none
  | some (.learnRequest _ i request) =>
      if c.muFree i then some (c.setServer i ((c.servers i).learn i request true).1) else none
  | some (.electRequest e attempt i request) =>
      if c.muFree i then
        let (server, response) := (c.servers i).elect request
        some ((c.setServer i server).send [.electReply e attempt i request response])
      else none
  | some (.forwardRequest _ i seq v) => c.start i seq v
  | some (.heartbeatRequest b i request) =>
      if c.muFree i then
        some (c.handled i ((c.servers i).heartbeat i request) (.heartbeatReply b i))
      else none
  | _ => none

def receive (c : Cluster n) (k : Nat) : Option (Cluster n) :=
  match c.msgs[k]? with
  | some (.prepareReply r i promise) =>
      match c.rounds[r]? with
      | none => none
      | some round =>
          match round.phase with
          | .preparing number highestN outcomes =>
              if outcomes.length = i.val ∧ ¬ prepareDone n round.v highestN outcomes then
                some (c.prepareOutcome r round number highestN (outcomes ++ [some promise]))
              else none
          | _ => none
  | some (.acceptReply r i _ response) => c.acceptOutcome r i (some response)
  | some (.electReply e attempt i _ response) =>
      match c.campaigns[e]? with
      | none => none
      | some campaign =>
          match campaign.phase with
          | .asking current outcomes =>
              if current = attempt ∧ (electPeers campaign.server)[outcomes.length]? = some i then
                some (c.electOutcome e campaign attempt (outcomes ++ [some response]))
              else none
          | _ => none
  | some (.heartbeatReply b i response) =>
      match c.beats[b]? with
      | none => none
      | some beat =>
          if beat.waiting ∧ beat.next = i.val ∧ c.muFree beat.server then
            let next := c.setBeat b { beat with waiting := false, next := beat.next + 1 }
            some (next.setServer beat.server (if i = beat.server then c.servers beat.server else
              (c.servers beat.server).copyDecided response.slots))
          else none
  | _ => none

def step (c : Cluster n) : Label n → Option (Cluster n)
  | .start i seq v => c.start i seq v
  | .begin r => c.begin r
  | .propose r => c.propose r
  | .conclude r => c.conclude r
  | .finishLearn r => c.finishLearn r
  | .forward f => c.forward f
  | .forwardReturns f => c.forwardReturns f
  | .deliver k => c.deliver k
  | .receive k => c.receive k
  | .prepareFails r => c.prepareFails r
  | .acceptFails r peer => c.acceptOutcome r peer none
  | .electFails e => c.electFails e
  | .beatFails b => c.beatFails b
  | .detect i => c.detect i
  | .quietEnds i => c.quietEnds i
  | .concludeElection e => c.concludeElection e
  | .beat i => c.beat i
  | .sendBeat b => c.sendBeat b

end Cluster

end Chubby.Paxos
