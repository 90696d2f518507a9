/-
This file proves when a server that starts a proposal in its view has a majority behind the view.
-/

import Chubby.Paxos.FastPath

namespace Chubby.Paxos

open Chubby.Library

variable {n : Nat}

/-- The server answered a request of the candidate's election for the view with OK and reported this
accepted number. -/
def Elected (c : Cluster n) (candidate : Fin n) (view : Int) (voter : Fin n) (highestSeq : Int) : Prop :=
  ∃ (e attempt : Nat) (campaign : Campaign n) (response : ElectResponse),
    c.campaigns[e]? = some campaign ∧ campaign.server = candidate ∧ campaign.target = view ∧
    .electReply e attempt voter ⟨view⟩ response ∈ c.msgs ∧ response.status = .ok ∧
    response.highestSeq = highestSeq

/-- A majority with the leader has reached the view, and the leader's accepted number covers the
reports of voters that are a majority with it. -/
structure Legitimate (c : Cluster n) (leader : Fin n) (view : Int) : Prop where
  reached : ∃ quorum : Finset (Fin n), leader ∈ quorum ∧ n < 2 * quorum.card ∧
    ∀ j ∈ quorum, view ≤ (c.servers j).view
  covered : ∃ voters : Finset (Fin n), n < 2 * (insert leader voters).card ∧
    ∀ j ∈ voters, ∃ highestSeq, Elected c leader view j highestSeq ∧
      highestSeq ≤ (c.servers leader).highestAcceptedSeq

/-- Every round that the step starts in a view above zero is one of a legitimate leader. -/
def StartsLegitimately (c : Cluster n) (_ : Label n) (c' : Cluster n) : Prop :=
  ∀ (r : Nat) (round : Round n), c'.rounds[r]? = some round → c.rounds[r]? = none → 0 < round.myView →
    Legitimate c' round.server round.myView

/-- The view of the round that a continuation starts. -/
def StartAction.proposedView : StartAction → Option Int
  | .newSlot view => some view
  | .stop | .forward => none

/-- The server and the view of the round that the label starts. -/
def Cluster.startsRound (c : Cluster n) : Label n → Option (Fin n × Int)
  | .start i seq _ => ((c.servers i).start i seq).2.proposedView.map (i, ·)
  | .forward f => (c.forwards[f]?).bind fun forward =>
      ((c.servers forward.server).startOnForward forward.server forward.seq).2.proposedView.map
        (forward.server, ·)
  | .deliver k =>
      match c.msgs[k]? with
      | some (.forwardRequest _ i seq _) => ((c.servers i).start i seq).2.proposedView.map (i, ·)
      | _ => none
  | _ => none

/-- A server that is about to start a round in a view above zero has won the election of the view. -/
def WonFirst (c : Cluster n) (label : Label n) : Prop :=
  ∀ started ∈ c.startsRound label, 0 < started.2 → Won c started.1 started.2

instance (c : Cluster n) (label : Label n) : Decidable (WonFirst c label) :=
  inferInstanceAs (Decidable (∀ started ∈ c.startsRound label, _))

/-- A round that a Start spawns is one in the view of the server. -/
theorem spawn_started {c : Cluster n} {i : Fin n} {seq : Int} {v : String} {r : Nat} {round : Round n}
    (after : ((c.setServer i ((c.servers i).start i seq).1).spawn i seq v
      ((c.servers i).start i seq).2).rounds[r]? = some round) (missing : c.rounds[r]? = none) :
    ((c.servers i).start i seq).2.proposedView.map (i, ·) = some (round.server, round.myView) := by
  unfold Cluster.spawn at after
  split at after
  · rw [Cluster.setServer_rounds, missing] at after
    cases after
  next view started =>
    obtain before | ⟨_, same⟩ := getElem?_concat_cases after
    · rw [Cluster.setServer_rounds, missing] at before
      cases before
    · rw [started, same]
      rfl
  · rw [Cluster.setServer_rounds, missing] at after
    cases after

/-- A label that adds a round starts it. -/
theorem Event.round_started {c c' : Cluster n} {label : Label n} (event : Event c label c') {r : Nat}
    {round : Round n} (after : c'.rounds[r]? = some round) (missing : c.rounds[r]? = none) :
    c.startsRound label = some (round.server, round.myView) := by
  have length : c.rounds.length ≤ r := List.getElem?_eq_none_iff.mp missing
  have kept (same : c'.rounds.length = c.rounds.length) :
      c.startsRound label = some (round.server, round.myView) := by
    have inside := (List.getElem?_eq_some_iff.mp after).1
    omega
  cases event with
  | start => exact spawn_started after missing
  | forwardHandled sent =>
      unfold Cluster.startsRound
      dsimp only
      rw [sent]
      exact spawn_started after missing
  | @forwardProposes f forward view forwards found action moved =>
      obtain before | ⟨_, same⟩ := getElem?_concat_cases after
      · rw [missing] at before
        cases before
      · unfold Cluster.startsRound
        dsimp only
        rw [found, Option.bind_some, action, same]
        rfl
  | electionEnds found asks asked => exact kept (by rw [endElection_rounds])
  | _ => exact kept (by simp [Cluster.enterPrepare, Cluster.enterAccept, Cluster.enterLearn,
      Cluster.prepareOutcome, Cluster.electOutcome, Cluster.callBeat, Cluster.handled])

theorem Elected.step {c c' : Cluster n} {label : Label n} (event : Event c label c')
    {candidate voter : Fin n} {view highestSeq : Int} (elected : Elected c candidate view voter highestSeq) :
    Elected c' candidate view voter highestSeq := by
  obtain ⟨e, attempt, campaign, response, found, server, target, replied, ok, reported⟩ := elected
  obtain ⟨phase, after⟩ := event.campaigns_kept found
  exact ⟨e, attempt, _, response, after, server, target, event.sent replied, ok, reported⟩

/-- A legitimate leader stays legitimate, since views and accepted numbers only grow. -/
theorem Legitimate.step {c c' : Cluster n} {label : Label n} (event : Event c label c') {leader : Fin n}
    {view : Int} (legitimate : Legitimate c leader view) : Legitimate c' leader view := by
  obtain ⟨quorum, inside, large, each⟩ := legitimate.reached
  obtain ⟨voters, more, covered⟩ := legitimate.covered
  constructor
  · exact ⟨quorum, inside, large, fun j member => (each j member).trans (event.servers j).view_mono⟩
  · refine ⟨voters, more, fun j member => ?_⟩
    obtain ⟨highestSeq, elected, below⟩ := covered j member
    exact ⟨highestSeq, elected.step event, below.trans (event.servers leader).accepted_mono⟩

/-- A campaign that wins makes its server a legitimate leader. -/
theorem winning_legitimate {c c' : Cluster n} {label : Label n} (reached : c.Reached)
    (event : Event c label c') {e attempt : Nat} {campaign : Campaign n}
    {outcomes : List (Option ElectResponse)} (found : c.campaigns[e]? = some campaign)
    (asks : campaign.phase = .asking attempt outcomes)
    (asked : outcomes.length = (electPeers campaign.server).length)
    (won : (concludeElection n (c.servers campaign.server) campaign.target
      (electTally outcomes)).2 = .won)
    (moved : c'.servers campaign.server = (concludeElection n (c.servers campaign.server)
      campaign.target (electTally outcomes)).1) : Legitimate c' campaign.server campaign.target := by
  obtain ⟨view, highest⟩ := winning_moves won moved
  obtain ⟨voters, large, each⟩ := winning_voters reached found asks asked won
  have majority : n < 2 * (insert campaign.server voters).card := by
    unfold Majority at large
    rw [Fintype.card_fin] at large
    exact large
  constructor
  · refine ⟨insert campaign.server voters, Finset.mem_insert_self .., majority, fun j member => ?_⟩
    obtain same | voter := Finset.mem_insert.mp member
    · rw [same]
      exact le_of_eq view.symm
    · obtain ⟨response, replied, ok, _⟩ := each j voter
      have covers := (electReply_covers reached replied).2 ok
      exact covers.1.trans (event.servers j).view_mono
  · refine ⟨voters, majority, fun j voter => ?_⟩
    obtain ⟨response, replied, ok, covered⟩ := each j voter
    obtain ⟨phase, kept⟩ := event.campaigns_kept found
    refine ⟨response.highestSeq,
      ⟨e, attempt, _, response, kept, rfl, rfl, event.sent replied, ok, rfl⟩, ?_⟩
    rw [highest]
    exact covered.trans (le_max_right _ _)

/-- A server that has won the election of a view is a legitimate leader of it ever after. -/
theorem Won.legitimate {c : Cluster n} (reached : c.Reached) {i : Fin n} {view : Int}
    (won : Won c i view) : Legitimate c i view :=
  @Won.since n Legitimate (fun event _ _ legitimate => legitimate.step event) winning_legitimate c reached
    i view won

/-- A step whose new round is one of a won election starts legitimately. -/
theorem starts_legitimately {c c' : Cluster n} {label : Label n} (reached : c.Reached)
    (first : WonFirst c label) (taken : c.step label = some c') : StartsLegitimately c label c' := by
  intro r round after missing larger
  have event := Cluster.step_event taken
  have won := first _ (event.round_started after missing) larger
  exact (won.legitimate reached).step event

/-- In a run that starts rounds above view zero only after won elections, every leader that starts a
round has a majority behind its view and has merged what its voters reported. -/
theorem leaders_legitimate {labels : List (Label n)}
    (guarded : Guarded Cluster.step WonFirst (Cluster.initial n) labels) :
    EveryStep Cluster.step StartsLegitimately (Cluster.initial n) labels := by
  refine @everyStep_of_guarded _ _ _ _ _ Cluster.Reached ?_ _ _ (.refl _ _) guarded
  intro c label c' reached first taken
  exact ⟨starts_legitimately reached first taken, reached.step taken⟩

theorem leaders_legitimate_wonElection : ∃ c : Cluster 3, run Cluster.step (Cluster.initial 3)
    wonElection = some c ∧ c.rounds.map Round.myView = [1] ∧
      EveryStep Cluster.step StartsLegitimately (Cluster.initial 3) wonElection := by
  obtain ⟨c, ran, checked⟩ := (Option.any_eq_true _ _).mp (by decide :
    (run Cluster.step (Cluster.initial 3) wonElection).any (fun c =>
      decide (c.rounds.map Round.myView = [1])) = true)
  exact ⟨c, ran, of_decide_eq_true checked, leaders_legitimate (by decide)⟩

/-- The message is an OK vote for the view that reports no more than the bound. -/
def Msg.votesWithin (view bound : Int) : Msg n → Bool
  | .electReply _ _ _ request response =>
      request.view = view && response.status = .ok && response.highestSeq ≤ bound
  | _ => false

theorem Legitimate.votes {c : Cluster n} {leader : Fin n} {view : Int} (several : 1 < n)
    (legitimate : Legitimate c leader view) :
    c.msgs.any (Msg.votesWithin view (c.servers leader).highestAcceptedSeq) := by
  obtain ⟨voters, large, each⟩ := legitimate.covered
  have voted : voters.Nonempty := by
    apply Finset.nonempty_iff_ne_empty.mpr
    intro empty
    rw [empty] at large
    simp at large
    omega
  obtain ⟨j, voter⟩ := voted
  obtain ⟨highestSeq, ⟨e, attempt, _, response, _, _, _, replied, ok, reported⟩, covered⟩ := each j voter
  apply List.any_eq_true.mpr
  exact ⟨_, replied, by simp [Msg.votesWithin, ok, reported, covered]⟩

/-- Server 1 takes view 4 from the server that rejected its election, so it starts a round in a view
that it leads although the votes for it report a slot that it does not cover. -/
theorem rejected_leads : ¬ ∀ (n : Nat) (c c' : Cluster n) (label : Label n), c.Reached →
    c.step label = some c' → StartsLegitimately c label c' := by
  intro legitimate
  obtain ⟨c, ran, checked⟩ := (Option.any_eq_true _ _).mp (by decide :
    (run Cluster.step (Cluster.initial 3) rejectedElection.dropLast).any (fun c =>
      c.rounds[1]?.isNone && (c.step (.start 1 1 "x#EXCLUSIVE")).any fun c' =>
        c'.rounds[1]?.any fun round => decide (round.server = 1 ∧ round.myView = 4) &&
          !c'.msgs.any (Msg.votesWithin 4 (c'.servers 1).highestAcceptedSeq)) = true)
  obtain ⟨missing, steps⟩ := Bool.and_eq_true_iff.mp checked
  obtain ⟨c', taken, started⟩ := (Option.any_eq_true _ _).mp steps
  obtain ⟨round, after, facts⟩ := (Option.any_eq_true _ _).mp started
  obtain ⟨leads, unvoted⟩ := Bool.and_eq_true_iff.mp facts
  obtain ⟨server, view⟩ := of_decide_eq_true leads
  have holds := legitimate 3 c c' _ ⟨_, ran⟩ taken 1 round after (Option.isNone_iff_eq_none.mp missing)
    (by omega)
  rw [server, view] at holds
  rw [holds.votes (by omega)] at unvoted
  cases unvoted

end Chubby.Paxos
